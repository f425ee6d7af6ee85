import Mathlib.Data.List.Forall2
import NodeVmm.HostNetwork

/-! What a call of `setupNetwork` leaves on the host. Its clean-up removes the rules and servers that it has a record of, but
    the device by its name alone: also when the device was there before and the call failed because of it. -/

namespace NodeVmm.Net
variable {env : Env} {o : SetupNetworkOptions} {h : Host} {s : Setup} {tap : String} {made : List Rule}
  {args : List String} {rule : Rule}

/-- The devices and servers are those of before, and so are the rules, up to their order. --/
structure Restored (h t : Host) : Prop where
  links : t.links = h.links
  rules : t.rules.Perm h.rules
  listening : t.listening = h.listening

/-! ### Rules -/

/-- The arguments append a rule, and those made of them for the clean-up remove it. --/
structure Makes (args : List String) (rule : Rule) : Prop where
  append : iptables args = appendRule rule
  remove : iptables (deleteRule args) = removeRule rule

theorem makes_natRule (ip : String) : Makes (natRule ip) ⟨"nat", "POSTROUTING", ["-s", ip ++ "/32", "-j", "MASQUERADE"]⟩ where
  append := rfl
  remove := by simp [deleteRule, natRule, iptables]

theorem makes_fwdIn (tap : String) : Makes (fwdIn tap) ⟨"filter", "FORWARD", ["-i", tap, "-j", "ACCEPT"]⟩ where
  append := rfl
  remove := by simp [deleteRule, fwdIn, iptables]

theorem makes_fwdOut (tap : String) : Makes (fwdOut tap)
    ⟨"filter", "FORWARD", ["-o", tap, "-m", "state", "--state", "RELATED,ESTABLISHED", "-j", "ACCEPT"]⟩ where
  append := rfl
  remove := by simp [deleteRule, fwdOut, iptables]

/-! ### While the call may still throw -/

/-- What is there now is what was there before, the device, the recorded rules and the servers. --/
structure Building (h : Host) (tap : String) (s : Setup) : Prop where
  links : s.host.links.filter (·.name ≠ tap) = h.links
  rules : ∃ made, List.Forall₂ Makes s.createdRules made ∧ s.host.rules.Perm (h.rules ++ made)
  listening : s.host.listening = h.listening ++ s.portForwards
  free : ∀ server ∈ s.portForwards, server ∉ h.listening

/-- No server is recorded yet. --/
structure Unserved (h : Host) (tap : String) (s : Setup) : Prop extends Building h tap s where
  none : s.portForwards = []

theorem Unserved.update (hs : Unserved h tap s) {host : Host} (hlinks : host.links.filter (·.name ≠ tap) = h.links)
    (hrules : host.rules = s.host.rules) (hlistening : host.listening = s.host.listening) :
    Unserved h tap { s with host := host } where
  links := hlinks
  rules := by
    rw [hrules]
    exact hs.rules
  listening := hlistening.trans hs.listening
  free := hs.free
  none := hs.none

theorem runCommand_ends {effect : Host → Option Host} (hs : Unserved h tap s)
    (heffect : ∀ host, effect s.host = some host → Unserved h tap { s with host := host }) :
    Exec.Ends (fun _ t => Unserved h tap t) (Unserved h tap) (runCommand env args effect) s := by
  by_cases hfails : env.fails args = true
  · exact Exec.Ends.of_error (e := commandFailed args) (by simp [runCommand, hfails]) hs
  · rcases hrun : effect s.host with _ | host
    · exact Exec.Ends.of_error (e := commandFailed args) (by simp [runCommand, hfails, hrun]) hs
    · exact Exec.Ends.of_ok (a := ()) (by simp [runCommand, hfails, hrun]) (heffect host hrun)

theorem tuntapAdd_ends (hs : Unserved h tap s) :
    Exec.Ends (fun _ t => Unserved h tap t) (Unserved h tap) (runCommand env args (tuntapAdd tap)) s := by
  refine runCommand_ends hs fun host hadd => ?_
  simp only [tuntapAdd, Option.ite_none_left_eq_some, Option.some.injEq] at hadd
  obtain ⟨-, rfl⟩ := hadd
  refine hs.update ?_ rfl rfl
  rw [List.filter_append, hs.links]
  simp

theorem changeLink_ends {change : Device → Device} (hname : ∀ link, (change link).name = link.name) (hs : Unserved h tap s) :
    Exec.Ends (fun _ t => Unserved h tap t) (Unserved h tap) (runCommand env args (changeLink tap change)) s := by
  refine runCommand_ends hs fun host hchange => ?_
  simp only [changeLink, Option.ite_none_right_eq_some, Option.some.injEq] at hchange
  obtain ⟨-, rfl⟩ := hchange
  refine hs.update ?_ rfl rfl
  have hkept : ∀ links : List Device, (links.map fun link => if link.name = tap then change link else link).filter
      (·.name ≠ tap) = links.filter (·.name ≠ tap) := by
    intro links
    induction links with
    | nil => rfl
    | cons link links ih =>
      by_cases hlink : link.name = tap
      · simpa [hlink, hname] using ih
      · simpa [hlink] using ih
  exact (hkept _).trans hs.links

theorem createRules_ends : ∀ {rules : List (List String)} {s : Setup}, (∀ args ∈ rules, ∃ rule, Makes args rule) →
    Unserved h tap s → Exec.Ends (fun _ t => Unserved h tap t) (Unserved h tap) (createRules env rules) s
  | [], _, _, hs => hs
  | args :: rules, s, hmakes, hs => by
    obtain ⟨⟨rule, hrule⟩, hrest⟩ := List.forall_mem_cons.mp hmakes
    unfold createRules
    -- the rule is on the host before it is in the record
    refine Exec.Ends.bind (P := fun _ t => t = { s with host := { s.host with rules := s.host.rules ++ [rule] } }) ?_ ?_
    · by_cases hfails : env.fails ("iptables" :: args) = true
      · exact Exec.Ends.of_error (e := commandFailed ("iptables" :: args)) (by simp [runCommand, hfails]) hs
      · exact Exec.Ends.of_ok (a := ()) (by simp [runCommand, hfails, hrule.append, appendRule]) rfl
    · rintro _ t rfl
      refine Exec.Ends.bind (P := fun _ t => Unserved h tap t) ?_ fun _ t ht => createRules_ends hrest ht
      obtain ⟨made, hmade, hperm⟩ := hs.rules
      refine ⟨⟨hs.links, ⟨made ++ [rule], ?_, ?_⟩, hs.listening, hs.free⟩, hs.none⟩
      · exact List.rel_append hmade (.cons hrule .nil)
      · rw [← List.append_assoc]
        exact hperm.append_right [rule]

/-! ### Servers -/

theorem foldl_erase_append {listening : List (Text × Nat)} : ∀ {servers : List (Text × Nat)},
    (∀ server ∈ servers, server ∉ listening) → servers.foldl List.erase (listening ++ servers) = listening
  | [], _ => List.append_nil _
  | server :: servers, hfree => by
    obtain ⟨hserver, hservers⟩ := List.forall_mem_cons.mp hfree
    rw [List.foldl_cons, List.erase_append_right _ hserver, List.erase_cons_head]
    exact foldl_erase_append hservers

/-- These servers listen and are in no record. --/
structure Serving (h : Host) (tap : String) (servers : List (Text × Nat)) (s : Setup) : Prop where
  closed : Unserved h tap { s with host := { s.host with listening := h.listening } }
  listening : s.host.listening = h.listening ++ servers
  free : ∀ server ∈ servers, server ∉ h.listening

theorem serving_nil (hs : Unserved h tap s) : Serving h tap [] s := by
  have hlistening : s.host.listening = h.listening := by
    rw [hs.listening, hs.none, List.append_nil]
  refine ⟨hs.update hs.links rfl ?_, ?_, nofun⟩
  · exact hlistening.symm
  · rw [hlistening, List.append_nil]

theorem Serving.close {servers : List (Text × Nat)} (hs : Serving h tap servers s) :
    Unserved h tap (closeServers servers s).2 := by
  have hclosed : servers.foldl List.erase s.host.listening = h.listening := by
    rw [hs.listening, foldl_erase_append hs.free]
  rw [closeServers, Exec.modify_apply, hclosed]
  exact hs.closed

theorem listen_ends {servers : List (Text × Nat)} {index port : Nat} {host : Text} (hs : Serving h tap servers s) :
    Exec.Ends (fun free t => Serving h tap (servers ++ [(host, free)]) t) (fun t => t = s) (listen env index host port) s := by
  rcases hfree : env.listens index with _ | free
  · exact Exec.Ends.of_error (e := "listen failed") (by simp [listen, hfree]) rfl
  · by_cases hmem : (host, if port = 0 then free else port) ∈ s.host.listening
    · exact Exec.Ends.of_error (e := "listen EADDRINUSE: address already in use") (by simp [listen, hfree, hmem]) rfl
    · have hserving : Serving h tap (servers ++ [(host, if port = 0 then free else port)])
          { s with host := { s.host with
            listening := s.host.listening ++ [(host, if port = 0 then free else port)] } } := by
        refine ⟨hs.closed, by rw [hs.listening, List.append_assoc], fun server hserver => ?_⟩
        rw [hs.listening] at hmem
        rcases List.mem_append.mp hserver with hserver | hserver
        · exact hs.free server hserver
        · rw [List.mem_singleton.mp hserver]
          exact (not_or.mp (mt List.mem_append.mpr hmem)).1
      exact Exec.Ends.of_ok (by simp [listen, hfree, hmem]) hserving

theorem listenAll_ends : ∀ {mappings : List PortForward} {index : Nat} {servers : List (Text × Nat)} {s : Setup},
    Serving h tap servers s →
      Exec.Ends (fun servers t => Serving h tap servers t) (Unserved h tap) (listenAll env index servers mappings) s
  | [], _, _, _, hs => hs
  | mapping :: mappings, index, servers, s, hs => by
    unfold listenAll
    refine Exec.Ends.bind (P := fun free t => Serving h tap (servers ++ [(mapping.host, free)]) t) ?_ fun free t ht =>
      listenAll_ends ht
    refine Exec.Ends.tryCatch (listen_ends hs) ?_
    rintro e t rfl
    exact Exec.Ends.bind (P := fun _ t => Unserved h tap t) hs.close fun _ t ht => ht

theorem setupPortForwards_ends {inputs : List PortForwardInput} (hs : Unserved h tap s) :
    Exec.Ends (fun _ t => Building h tap t) (Building h tap) (setupPortForwards env inputs) s := by
  unfold setupPortForwards
  refine Exec.Ends.bind (P := fun _ t => Unserved h tap t) ?_ fun requested t ht => ?_
  · rcases parsePortForwards inputs with e | requested
    · exact hs.toBuilding
    · exact hs
  refine Exec.Ends.bind (P := fun servers u => Serving h tap servers u) ?_ fun servers u hu => ?_
  · exact (listenAll_ends (serving_nil ht)).mono (fun _ _ hu => hu) fun _ hu => hu.toBuilding
  exact ⟨hu.closed.links, hu.closed.rules, hu.listening, hu.free⟩

theorem setupAuto_ends (hs : Unserved h tap s) :
    Exec.Ends (fun _ t => Building h tap t) (Building h tap) (setupAuto env o tap) s := by
  have hopen : ∀ {α : Type} {x : Exec Setup α} {t : Setup},
      Exec.Ends (fun _ t => Unserved h tap t) (Unserved h tap) x t →
        Exec.Ends (fun _ t => Unserved h tap t) (Building h tap) x t :=
    fun hx => hx.mono (fun _ _ ht => ht) fun _ ht => ht.toBuilding
  unfold setupAuto
  refine Exec.Ends.bind (hopen (tuntapAdd_ends hs)) fun _ s₁ hs₁ => ?_
  refine Exec.Ends.bind (hopen (changeLink_ends (fun _ => rfl) hs₁)) fun _ s₂ hs₂ => ?_
  refine Exec.Ends.bind (hopen (changeLink_ends (fun _ => rfl) hs₂)) fun _ s₃ hs₃ => ?_
  refine Exec.Ends.bind (hopen (Exec.Ends.tryCatch (runCommand_ends hs₃ ?_) fun _ t ht => ht)) fun _ s₄ hs₄ => ?_
  · rintro host heq
    cases heq
    exact hs₃.update hs₃.links rfl rfl
  refine Exec.Ends.bind (hopen (createRules_ends ?_ hs₄)) fun _ s₅ hs₅ => ?_
  · intro args hargs
    simp only [List.mem_cons, List.not_mem_nil, or_false] at hargs
    rcases hargs with rfl | rfl | rfl
    · exact ⟨_, makes_natRule _⟩
    · exact ⟨_, makes_fwdIn _⟩
    · exact ⟨_, makes_fwdOut _⟩
  exact Exec.Ends.bind (setupPortForwards_ends hs₅) fun _ t ht => ht

/-! ### The clean-up -/

theorem deleteRules_apply : ∀ {rules : List (List String)} {made : List Rule} {s : Setup}, List.Forall₂ Makes rules made →
    s.host.rules.Perm (h.rules ++ made) → ∃ t, deleteRules rules s = (.ok (), t) ∧ t.host.links = s.host.links ∧
      t.host.rules.Perm h.rules ∧ t.host.listening = s.host.listening
  | [], _, s, .nil, hperm => ⟨s, rfl, rfl, by rwa [List.append_nil] at hperm, rfl⟩
  | args :: rules, rule :: made, s, .cons hrule hrules, hperm => by
    have hmem : rule ∈ s.host.rules := hperm.mem_iff.mpr (List.mem_append_right _ List.mem_cons_self)
    have herased : (s.host.rules.erase rule).Perm (h.rules ++ made) := by
      have hmiddle := hperm.trans List.perm_middle
      simpa using hmiddle.erase rule
    have hremove : cleanUp (iptables (deleteRule args)) s =
        (.ok (), { s with host := { s.host with rules := s.host.rules.erase rule } }) := by
      rw [hrule.remove]
      simp [cleanUp, removeRule, hmem]
    obtain ⟨t, ht, hlinks, hrestored, hlistening⟩ := @deleteRules_apply rules made
      { s with host := { s.host with rules := s.host.rules.erase rule } } hrules herased
    exact ⟨t, by rw [deleteRules, Exec.bind_of_ok hremove, ht], hlinks, hrestored, hlistening⟩

theorem linkDelete_links (t : Setup) : ∃ u, cleanUp (linkDelete tap) t = (.ok (), u) ∧
    u.host = { t.host with links := t.host.links.filter (·.name ≠ tap) } := by
  refine ⟨_, rfl, ?_⟩
  by_cases hmem : tap ∈ t.host.links.map Device.name
  · simp [linkDelete, hmem]
  · have hkept : t.host.links.filter (·.name ≠ tap) = t.host.links :=
      List.filter_eq_self.mpr fun link hlink => decide_eq_true fun hname => hmem (hname ▸ List.mem_map_of_mem hlink)
    rw [hkept]
    simp [linkDelete, hmem]

/-- The clean-up closes the servers, removes the rules, and then the device of that name. --/
theorem cleanupAuto_host (hrules : ∃ made, List.Forall₂ Makes s.createdRules made ∧ s.host.rules.Perm (h.rules ++ made))
    (hlistening : s.host.listening = h.listening ++ s.portForwards) (hfree : ∀ server ∈ s.portForwards, server ∉ h.listening) :
    ∃ t, cleanupAuto tap s = (.ok (), t) ∧ t.host.links = s.host.links.filter (·.name ≠ tap) ∧
      t.host.rules.Perm h.rules ∧ t.host.listening = h.listening := by
  obtain ⟨made, hmade, hperm⟩ := hrules
  have hclosed : s.portForwards.foldl List.erase s.host.listening = h.listening := by
    rw [hlistening, foldl_erase_append hfree]
  have hreverse : s.host.rules.Perm (h.rules ++ made.reverse) :=
    hperm.trans (List.Perm.append_left _ (List.reverse_perm made).symm)
  obtain ⟨t, ht, hlinks, hrestored, hstill⟩ := @deleteRules_apply h s.createdRules.reverse made.reverse
    { host := { s.host with listening := h.listening }, createdRules := s.createdRules.reverse, portForwards := [] }
    (List.forall₂_reverse_iff.mpr hmade) hreverse
  obtain ⟨u, hu, hhost⟩ := @linkDelete_links tap t
  refine ⟨u, ?_, by rw [hhost, hlinks], by rw [hhost]; exact hrestored, by rw [hhost]; exact hstill⟩
  simp only [cleanupAuto, closeServers, Exec.bind_apply, Exec.get_apply, Exec.modify_apply, hclosed, ht, hu]

theorem Building.cleanup (hs : Building h tap s) : Restored h (cleanupAuto tap s).2.host := by
  obtain ⟨t, ht, hlinks, hrules, hlistening⟩ := @cleanupAuto_host h s tap hs.rules hs.listening hs.free
  rw [ht]
  exact ⟨hlinks.trans hs.links, hrules, hlistening⟩

/-! ### The whole call -/

/-- The host after the call has thrown, or after the `cleanup` of what it returned. --/
def hostAfter (env : Env) (o : SetupNetworkOptions) (h : Host) : Host :=
  match setupNetwork env o ⟨h, [], []⟩ with
  | (.error _, s) => s.host
  | (.ok _, s) => (cleanupAuto (autoTapName env o) s).2.host

/-- The call gets past its checks. --/
def Ready (env : Env) : Prop := env.root = true ∧ ∀ command ∈ ["ip", "sysctl", "iptables"], command ∉ env.missing

instance {env : Env} : Decidable (Ready env) := inferInstanceAs (Decidable (_ ∧ _))

theorem setupNetwork_ready (hauto : o.wanted = "auto") (hready : Ready env) : setupNetwork env o s =
    (tryCatch (setupAuto env o (autoTapName env o)) fun error => do
      cleanupAuto (autoTapName env o)
      throw error : Exec Setup NetworkConfig) s := by
  have hcommands : requireCommands env ["ip", "sysctl", "iptables"] = .ok () := by
    have hnone : ["ip", "sysctl", "iptables"].filter (· ∈ env.missing) = [] :=
      List.filter_eq_nil_iff.mpr fun command hcommand => by simpa using hready.2 command hcommand
    simp [requireCommands, hnone]
  have hroot : requireRoot env "--net auto" = .ok () := by rw [requireRoot, if_pos hready.1]
  simp [setupNetwork, hauto, hroot, hcommands, Exec.bind_apply]

theorem setupNetwork_unready (hauto : o.wanted = "auto") (hready : ¬Ready env) :
    ∃ e, setupNetwork env o s = (.error e, s) := by
  by_cases hroot : env.root = true
  · have hmissing : ["ip", "sysctl", "iptables"].filter (· ∈ env.missing) ≠ [] := by
      intro hnone
      refine hready ⟨hroot, fun command hcommand => ?_⟩
      simpa using List.filter_eq_nil_iff.mp hnone command hcommand
    have hrefused : requireRoot env "--net auto" = .ok () := by rw [requireRoot, if_pos hroot]
    obtain ⟨e, hcommands⟩ : ∃ e, requireCommands env ["ip", "sysctl", "iptables"] = .error e := by
      simp only [requireCommands, if_neg hmissing]
      exact ⟨_, rfl⟩
    exact ⟨e, by simp [setupNetwork, hauto, hrefused, hcommands, Exec.bind_apply]⟩
  · refine ⟨"--net auto requires root privileges. Re-run with sudo.", ?_⟩
    simp [setupNetwork, hauto, requireRoot, hroot, Exec.bind_apply]

theorem cleanup_throw (e : String) (s : Setup) (hclean : ∃ t, cleanupAuto tap s = (.ok (), t)) :
    (do cleanupAuto tap; throw e : Exec Setup NetworkConfig) s = (.error e, (cleanupAuto tap s).2) := by
  obtain ⟨t, ht⟩ := hclean
  rw [Exec.bind_of_ok ht, ht]
  rfl

/-- `setupNetwork` in the mode `auto`: whichever step fails, and after the clean-up of a call that returns, the host has the
    devices, rules and servers that it had, exactly if the call is refused at once or the name of its device was free. --/
theorem network_restored_iff (hauto : o.wanted = "auto") :
    Restored h (hostAfter env o h) ↔ (Ready env → autoTapName env o ∉ h.links.map Device.name) := by
  by_cases hready : Ready env
  swap
  · obtain ⟨e, hrefused⟩ := setupNetwork_unready (s := ⟨h, [], []⟩) hauto hready
    simp only [hostAfter, hrefused]
    exact ⟨fun _ hr => absurd hr hready, fun _ => ⟨rfl, List.Perm.refl _, rfl⟩⟩
  simp only [hready, forall_const]
  by_cases htaken : autoTapName env o ∈ h.links.map Device.name
  · -- the device cannot be added, and the clean-up removes the one that has its name
    refine iff_of_false (fun hrestored => ?_) (not_not_intro htaken)
    obtain ⟨e, hadd⟩ : ∃ e, setupAuto env o (autoTapName env o) ⟨h, [], []⟩ = (.error e, ⟨h, [], []⟩) := by
      refine ⟨commandFailed ["ip", "tuntap", "add", "dev", autoTapName env o, "mode", "tap"], Exec.bind_of_error ?_⟩
      simp [runCommand, tuntapAdd, htaken]
    obtain ⟨t, ht, hlinks, -⟩ := @cleanupAuto_host h ⟨h, [], []⟩ (autoTapName env o) ⟨[], .nil, by simp⟩ (by simp) (by simp)
    have hafter : hostAfter env o h = t.host := by
      rw [hostAfter, setupNetwork_ready hauto hready, Exec.tryCatch_of_error hadd, cleanup_throw e _ ⟨t, ht⟩, ht]
    have hkept := hrestored.links
    rw [hafter, hlinks] at hkept
    obtain ⟨link, hlink, hname⟩ := List.mem_map.mp htaken
    rw [← hkept] at hlink
    simp [hname] at hlink
  · refine iff_of_true ?_ htaken
    have hunserved : Unserved h (autoTapName env o) ⟨h, [], []⟩ := by
      refine ⟨⟨?_, ⟨[], .nil, by simp⟩, by simp, nofun⟩, rfl⟩
      exact List.filter_eq_self.mpr fun link hlink => decide_eq_true fun hname => htaken (hname ▸ List.mem_map_of_mem hlink)
    have hends := @setupAuto_ends env o h ⟨h, [], []⟩ (autoTapName env o) hunserved
    rcases hrun : setupAuto env o (autoTapName env o) ⟨h, [], []⟩ with ⟨e | config, s⟩
    · have hbuilding := hends.threw hrun
      obtain ⟨t, ht, -⟩ := @cleanupAuto_host h s (autoTapName env o) hbuilding.rules hbuilding.listening hbuilding.free
      have hafter : hostAfter env o h = (cleanupAuto (autoTapName env o) s).2.host := by
        rw [hostAfter, setupNetwork_ready hauto hready, Exec.tryCatch_of_error hrun, cleanup_throw e _ ⟨t, ht⟩]
      rw [hafter]
      exact hbuilding.cleanup
    · have hafter : hostAfter env o h = (cleanupAuto (autoTapName env o) s).2.host := by
        rw [hostAfter, setupNetwork_ready hauto hready, Exec.tryCatch_of_ok hrun]
      rw [hafter]
      exact (hends.returned hrun).cleanup

/-- A host where the last rule of `tap0` is refused. --/
def lastRuleFails : Env where
  root := true
  missing := []
  guestDns := ""
  deterministicMac _ := "06:00:00:00:00:00"
  random := []
  fails argv := argv == "iptables" :: fwdOut "tap0"
  listens _ := none

/-- The options of a VM with a name for its device. --/
def onTap0 : SetupNetworkOptions := ⟨"vm-1".toList, "auto", "tap0", [.number (some 80)]⟩

theorem network_restored_last_rule :
    Restored ⟨[⟨"eth0", ["10.0.0.2/24"], true⟩], [⟨"filter", "FORWARD", ["-j", "DROP"]⟩], [], false⟩
      (hostAfter lastRuleFails onTap0
        ⟨[⟨"eth0", ["10.0.0.2/24"], true⟩], [⟨"filter", "FORWARD", ["-j", "DROP"]⟩], [], false⟩) :=
  (network_restored_iff rfl).mpr fun _ => by decide

/-- The device of another VM has the name: the call throws, and the device is gone. --/
theorem network_taken_name : ¬∀ (env : Env) (o : SetupNetworkOptions) (h : Host), o.wanted = "auto" →
    Restored h (hostAfter env o h) := by
  intro hall
  have hlinks := (hall lastRuleFails onTap0 ⟨[⟨"tap0", ["172.31.90.1/30"], true⟩], [], [], true⟩ rfl).links
  have hgone : (hostAfter lastRuleFails onTap0 ⟨[⟨"tap0", ["172.31.90.1/30"], true⟩], [], [], true⟩).links = [] := by decide
  rw [hgone] at hlinks
  cases hlinks

/-! ### The other modes -/

theorem resolveHostPorts_state : ∀ {mappings : List PortForward} {index : Nat} {s : Setup},
    (resolveHostPorts env index mappings s).2 = s
  | [], _, _ => rfl
  | mapping :: mappings, index, s => by
    have hone : (resolveHostPort env index mapping.host mapping.hostPort s).2 = s := by
      unfold resolveHostPort
      split
      · rfl
      · rcases hfree : env.listens index with _ | free
        · simp [listen, hfree, Exec.bind_apply]
        · by_cases hmem : (mapping.host, free) ∈ s.host.listening
          · simp [listen, hfree, hmem, Exec.bind_apply]
          · have hclosed : List.erase (s.host.listening ++ [(mapping.host, free)]) (mapping.host, free) =
                s.host.listening := by
              rw [List.erase_append_right _ hmem, List.erase_cons_head, List.append_nil]
            simp [listen, hfree, hmem, closeServers, hclosed, Exec.bind_apply]
    unfold resolveHostPorts
    rcases hrun : resolveHostPort env index mapping.host mapping.hostPort s with ⟨e | port, t⟩
    · rw [Exec.bind_of_error hrun]
      rwa [hrun] at hone
    · rw [hrun] at hone
      obtain rfl : t = s := hone
      rw [Exec.bind_of_ok hrun]
      have hrest := @resolveHostPorts_state mappings (index + 1) t
      rcases hmore : resolveHostPorts env (index + 1) mappings t with ⟨e | others, u⟩
      · rw [Exec.bind_of_error hmore]
        rwa [hmore] at hrest
      · rw [Exec.bind_of_ok hmore]
        rwa [hmore] at hrest

/-- In every other mode the host is as it was. --/
theorem setupNetwork_state (hmode : o.wanted ≠ "auto") : (setupNetwork env o s).2 = s := by
  unfold setupNetwork
  split_ifs
  · rfl
  · rfl
  · rfl
  · rfl
  · rfl
  · rcases parsePortForwards o.ports with e | requested
    · rfl
    · rw [Exec.bind_of_ok Exec.lift_apply]
      have hstate := @resolveHostPorts_state env requested 0 s
      rcases hrun : resolveHostPorts env 0 requested s with ⟨e | ports, t⟩
      · rw [Exec.bind_of_error hrun]
        rwa [hrun] at hstate
      · rw [Exec.bind_of_ok hrun]
        rwa [hrun] at hstate
  · rfl

end NodeVmm.Net
