import NodeVmm.Lib.ShellReader
import NodeVmm.Theorems.DockerfileRun

/-! The text of RUN against the shell that reads it. `expandBuildVars` replaces every name after a `$`, wherever it stands and
    whether or not the build has the variable. For the shell, the text that is handed to it is the text of the instruction with
    values in the places of references exactly when each replacement is one that the shell would make itself. -/

namespace NodeVmm.Dockerfile
open RootfsCache (StringMap shellQuote quoteArgv)
open Shell

variable {r : Reader} {vars : Text → Option Text} {q : r.Pos} {c : Char} {s t name : Text} {n : Nat}

/-! ### Replacements -/

/-- The pattern of the builder is that of a reference. --/
theorem reference_eq (s : Text) : reference s = parameter s := rfl

/-- What stands in the place of a name. --/
def fill (vars : Text → Option Text) (name : Text) : Text := (vars name).getD []

/-- A text after some characters that are in the last match, with its replacements. --/
def filled (vars : Text → Option Text) (n : Nat) (s : Text) : Text := (piecesAfter n s).flatMap (Piece.fill vars)

theorem filled_match (h : parameter s = some (name, n)) : filled vars 0 ('$' :: s) = fill vars name ++ filled vars n s := by
  rw [filled, piecesAfter, if_pos rfl, reference_eq, h]
  rfl

theorem filled_char (h : c = '$' → parameter s = none) : filled vars 0 (c :: s) = c :: filled vars 0 s := by
  have hpieces : piecesAfter 0 (c :: s) = .char c :: piecesAfter 0 s := by
    rw [piecesAfter]
    split
    · rename_i hmatch
      obtain ⟨hc, hmatch⟩ := Option.ite_none_right_eq_some.mp hmatch
      rw [reference_eq, h hc] at hmatch
      cases hmatch
    · rfl
  rw [filled, hpieces]
  rfl

theorem filled_append (h : '$' ∉ s) : filled vars 0 (s ++ t) = s ++ filled vars 0 t := by
  induction s with
  | nil => rfl
  | cons c s ih =>
    obtain ⟨hc, hs⟩ : c ≠ '$' ∧ '$' ∉ s := by simpa [eq_comm] using h
    rw [List.cons_append, filled_char (absurd · hc), ih hs]
    rfl

theorem filled_drop : ∀ (n : Nat) (s : Text), filled vars n s = filled vars 0 (s.drop n)
  | 0, _ => rfl
  | _ + 1, [] => rfl
  | n + 1, _ :: s => filled_drop n s

/-- A match that is its own replacement. --/
theorem filled_match_self (h : parameter s = some (name, n)) (hfill : fill vars name = '$' :: s.take n) :
    filled vars 0 ('$' :: s) = '$' :: filled vars 0 s := by
  have hsplit : filled vars 0 s = s.take n ++ filled vars 0 (s.drop n) := by
    rw [← filled_append (parameter_not_mem h), List.take_append_drop]
  rw [filled_match h, hfill, filled_drop, hsplit]
  rfl

theorem referencesAfter_append (h : '$' ∉ s) :
    r.referencesAfter 0 q (s ++ t) = r.referencesAfter 0 (s.foldl r.next q) t := by
  induction s generalizing q with
  | nil => rfl
  | cons c s ih =>
    obtain ⟨hc, hs⟩ : c ≠ '$' ∧ '$' ∉ s := by simpa [eq_comm] using h
    rw [List.cons_append, Reader.referencesAfter_char (absurd · hc)]
    exact ih hs

/-- A replacement is read as text where the shell has a reference, and it is the match itself elsewhere. --/
def Kept (r : Reader) (vars : Text → Option Text) (ref : Shell.Reference r.Pos) : Prop :=
  if r.expands ref.pos = true then r.Inert ref.pos (fill vars ref.name) else fill vars ref.name = ref.source

/-- Where there are no references, a text begins as before. --/
theorem head?_filled (hq : r.expands q = false) (h : ∀ ref ∈ r.referencesAfter 0 q s, Kept r vars ref) :
    (filled vars 0 s).head? = s.head? := by
  cases s with
  | nil => rfl
  | cons c s =>
    rcases begins_or_not c s with hmatch | ⟨name, n, rfl, hm⟩
    · rw [filled_char hmatch]
      rfl
    · rw [Reader.referencesAfter_match hm] at h
      have hkept : Kept r vars ⟨q, name, '$' :: s.take n⟩ := h _ List.mem_cons_self
      rw [filled_match_self hm (by simpa [Kept, hq] using hkept)]
      rfl

/-- A `$` that begins no reference begins none after the replacements. --/
theorem parameter_filled (hq : r.expands q = true) (hnone : parameter s = none)
    (h : ∀ ref ∈ r.referencesAfter 0 (r.next q '$') s, Kept r vars ref) : parameter (filled vars 0 s) = none := by
  by_cases hbrace : s.head? = some '{'
  · obtain ⟨t, rfl⟩ := List.head?_eq_some_iff.mp hbrace
    have hname : ∀ c ∈ t.takeWhile Shell.isNameChar, Shell.isNameChar c = true := fun c => List.mem_takeWhile_imp
    have hmem : '$' ∉ '{' :: t.takeWhile Shell.isNameChar := by
      rw [List.mem_cons, not_or]
      exact ⟨by decide, not_mem_takeWhile⟩
    rw [← List.takeWhile_append_dropWhile (p := Shell.isNameChar) (l := t)] at hnone h ⊢
    rw [← List.cons_append] at h ⊢
    rw [referencesAfter_append hmem] at h
    rw [filled_append hmem]
    refine parameter_none_of_brace hnone hname (fun c hc => ?_) (head?_filled (r.expands_braced hq hname) h)
    have hhead := List.head?_dropWhile_not Shell.isNameChar t
    rw [Option.mem_def.mp hc] at hhead
    simpa using hhead
  · exact parameter_none_of_head hnone hbrace (head?_filled (r.expands_dollar hq) h)

/-- The shell reads the text with the replacements in the places of the references. --/
theorem readAfter_filled (h : ∀ ref ∈ r.referencesAfter n q s, Kept r vars ref) :
    r.readAfter 0 q (filled vars n s) = (r.readAfter n q s).flatMap (r.fillItem (fill vars)) := by
  induction s generalizing n q with
  | nil => cases n <;> rfl
  | cons c s ih =>
    cases n with
    | succ n => exact ih h
    | zero =>
      rcases begins_or_not c s with hmatch | ⟨name, n, rfl, hm⟩
      · rw [Reader.referencesAfter_char hmatch] at h
        have hread : c = '$' → r.expands q = true → parameter (filled vars 0 s) = none := by
          rintro rfl hq
          exact parameter_filled hq (hmatch rfl) h
        rw [filled_char hmatch, Reader.readAfter_char hread, Reader.readAfter_char fun hc _ => hmatch hc, ih h]
        rfl
      · rw [Reader.referencesAfter_match hm] at h
        obtain ⟨hkept, hrest⟩ := List.forall_mem_cons.mp h
        cases hq : r.expands q with
        | true =>
          rw [if_pos hq] at hrest
          have hinert : r.Inert q (fill vars name) := by simpa [Kept, hq] using hkept
          rw [filled_match hm, Reader.readAfter_inert hinert, ih hrest, Reader.readAfter_param hm hq]
          rfl
        | false =>
          rw [hq] at hrest
          have hnone : '$' = '$' → r.expands q = true → parameter (filled vars 0 s) = none := by simp [hq]
          rw [filled_match_self hm (by simpa [Kept, hq] using hkept), Reader.readAfter_char hnone,
            Reader.readAfter_char (by simp [hq]), ih hrest]
          rfl

theorem filled_self (h : ∀ ref ∈ r.referencesAfter 0 q s, r.expands ref.pos = false ∧ Kept r vars ref) :
    filled vars 0 s = s := by
  induction s generalizing q with
  | nil => rfl
  | cons c s ih =>
    rcases begins_or_not c s with hmatch | ⟨name, n, rfl, hm⟩
    · rw [Reader.referencesAfter_char hmatch] at h
      rw [filled_char hmatch, ih h]
    · rw [Reader.referencesAfter_match hm] at h
      obtain ⟨⟨hq, hkept⟩, hrest⟩ := List.forall_mem_cons.mp h
      rw [if_neg (by simpa using hq)] at hrest
      rw [filled_match_self hm (by simpa [Kept, show r.expands q = false from hq] using hkept), ih hrest]

/-! ### The words of the JSON form -/

theorem references_join : ∀ {words : List Text} {q : r.Pos}, r.place q = some .plain →
    (∀ w ∈ words, (unquote w).isSome = true) → ∀ ref ∈ r.referencesAfter 0 q (Text.join ' ' words), r.expands ref.pos = false
  | [], _, _, _ => by simp [Text.join, Reader.referencesAfter]
  | [w], q, hq, h => fun ref href => by
    obtain ⟨-, hrefs⟩ := Reader.references_quoted (s := []) hq (h w (List.mem_singleton_self w))
    rcases hrefs ref (by simpa [Text.join] using href) with hfalse | hmem
    · exact hfalse
    · cases hmem
  | w :: v :: words, q, hq, h => fun ref href => by
    obtain ⟨hw, hwords⟩ := List.forall_mem_cons.mp h
    obtain ⟨hplace, hrefs⟩ := Reader.references_quoted (s := ' ' :: Text.join ' ' (v :: words)) hq hw
    rcases hrefs ref href with hfalse | hmem
    · exact hfalse
    · rw [Reader.referencesAfter_char (by simp)] at hmem
      exact references_join (r.place_next hplace (by simp [quoteStep])) hwords ref hmem

/-- In the words of the JSON form the shell reads no references. --/
theorem references_quoteArgv (json : List Text) : ∀ ref ∈ r.references (quoteArgv json), r.expands ref.pos = false :=
  references_join r.place_start fun w hw => by
    obtain ⟨v, -, rfl⟩ := List.mem_map.mp hw
    rw [unquote_shellQuote]
    rfl

/-! ### The text of RUN -/

/-- The members of the prototype are no matches. --/
theorem prototypeMember_ne {source : Text} : prototypeMember name ≠ some ('$' :: source) := by
  unfold prototypeMember
  split_ifs <;> simp

theorem fill_eq_source {vars : StringMap} {source : Text} :
    fill (lookup vars) name = '$' :: source ↔ JsObject.get name vars = some ('$' :: source) := by
  unfold fill lookup
  cases hget : JsObject.get name vars with
  | some v => simp
  | none =>
    cases hproto : prototypeMember name with
    | none => simp
    | some v =>
      simp only [Option.none_or, Option.getD_some, reduceCtorEq, iff_false]
      rintro rfl
      exact prototypeMember_ne hproto

/-- The variables of a shell that has those of the build set. --/
def withVars (vars : StringMap) (env : Env) : Env := fun name => (JsObject.get name vars).or (env name)

theorem withVars_eq_iff {vars : StringMap} {env : Env} :
    withVars vars env = env ↔ ∀ name v, JsObject.get name vars = some v → env name = some v := by
  constructor
  · intro h name v hget
    rw [← h, withVars, hget]
    rfl
  · intro h
    funext name
    unfold withVars
    cases hget : JsObject.get name vars with
    | none => rfl
    | some v => exact (h name v hget).symm

/-- The text that is handed to a shell behaves as the text of the instruction in a shell that has the variables of the build
    set. `env` is what the shell begins with. --/
structure Preserved (c : Commands r) (buildVars : StringMap) (stage : RunStage) (json : List Text) (arguments : Option Text)
    (env : Env) : Prop where
  -- what the shell does not expand is handed on, and so are the references that the build does not define
  unexpanded : ∀ ref ∈ r.references (runText json arguments), r.expands ref.pos = false →
    fill (lookup (runVars buildVars stage)) ref.name = ref.source
  undefined : ∀ ref ∈ r.references (runText json arguments), r.expands ref.pos = true →
    JsObject.get ref.name (runVars buildVars stage) = none → fill (lookup (runVars buildVars stage)) ref.name = ref.source
  -- no value is read as syntax
  inert : ∀ ref ∈ r.references (runText json arguments), r.expands ref.pos = true →
    ∀ v, JsObject.get ref.name (runVars buildVars stage) = some v → r.Inert ref.pos v
  behaves : ∀ {β : Type} {run : List (Item r.Pos) → Env → β}, Lawful r c.changes run →
    run (r.read (handedText buildVars stage json arguments)) env =
      run (r.read (runText json arguments)) (withVars (runVars buildVars stage) env)
  -- the words of the JSON form reach the program
  words : json ≠ [] → ∃ words, handedText buildVars stage json arguments = Text.join ' ' words ∧
    simpleCommand words = some ⟨[], json⟩

/-- Where the shell has a reference, the build has the variable, its value is text there, and the command does not change it;
    elsewhere the value is what is written. --/
def Agrees (c : Commands r) (vars : StringMap) (command : Text) (env : Env) (ref : Shell.Reference r.Pos) : Prop :=
  if r.expands ref.pos = true then
    ∃ v, JsObject.get ref.name vars = some v ∧ r.Inert ref.pos v ∧ ¬c.changes (r.read command) env ref.name
  else JsObject.get ref.name vars = some ref.source

section
variable {c : Commands r} {buildVars vars : StringMap} {stage : RunStage} {json : List Text} {arguments : Option Text}
  {command : Text} {env : Env}

theorem fill_of_get {v : Text} (h : JsObject.get name vars = some v) : fill (lookup vars) name = v := by
  simp [fill, lookup, h]

theorem Agrees.kept {ref : Shell.Reference r.Pos} (h : Agrees c vars command env ref) : Kept r (lookup vars) ref := by
  unfold Kept
  unfold Agrees at h
  split at h
  · obtain ⟨v, hget, hinert, -⟩ := h
    rw [if_pos ‹_›, fill_of_get hget]
    exact hinert
  · rw [if_neg ‹_›]
    exact fill_of_get h

theorem read_expandBuildVars (h : ∀ ref ∈ r.references command, Kept r (lookup vars) ref) :
    r.read (expandBuildVars command vars) = (r.read command).flatMap (r.fillItem (fill (lookup vars))) :=
  readAfter_filled h

/-- The reader finds no references in a text in which all are replaced. --/
theorem param_not_mem_fillItem {xs : List (Item r.Pos)} {f : Text → Text} {p : r.Pos} :
    .param p name ∉ xs.flatMap (r.fillItem f) := by
  intro h
  obtain ⟨x, -, hmem⟩ := List.mem_flatMap.mp h
  cases x with
  | param q name' => exact param_not_mem_chars hmem
  | char q c => simp [Reader.fillItem] at hmem
  | value q v => simp [Reader.fillItem] at hmem

namespace Preserved

theorem kept (h : Preserved c buildVars stage json arguments env) :
    ∀ ref ∈ r.references (runText json arguments), Kept r (lookup (runVars buildVars stage)) ref := fun ref href => by
  unfold Kept
  split
  · rename_i hexpands
    cases hget : JsObject.get ref.name (runVars buildVars stage) with
    | some v =>
      rw [fill_of_get hget]
      exact h.inert ref href hexpands v hget
    | none =>
      obtain ⟨source, hsource⟩ := Reader.source_eq href
      have hfill := h.undefined ref href hexpands hget
      rw [hsource, fill_eq_source, hget] at hfill
      cases hfill
  · rename_i hexpands
    exact h.unexpanded ref href (by simpa using hexpands)

theorem agrees (h : Preserved c buildVars stage json arguments env) :
    withVars (runVars buildVars stage) env = env ∧
      ∀ ref ∈ r.references (runText json arguments), Agrees c (runVars buildVars stage) (runText json arguments) env ref := by
  have hbehaves := h.behaves (lawful_resolve c.lawful)
  have henv : env = withVars (runVars buildVars stage) env := congrArg Prod.snd hbehaves
  rw [← henv] at hbehaves
  refine ⟨henv.symm, fun ref href => ?_⟩
  obtain ⟨source, hsource⟩ := Reader.source_eq href
  unfold Agrees
  split
  · rename_i hexpands
    cases hget : JsObject.get ref.name (runVars buildVars stage) with
    | none =>
      have hfill := h.undefined ref href hexpands hget
      rw [hsource, fill_eq_source, hget] at hfill
      cases hfill
    | some v =>
      refine ⟨v, rfl, h.inert ref href hexpands v hget, fun hchanges => ?_⟩
      have hparam : .param ref.pos ref.name ∈ r.read (runText json arguments) :=
        Reader.param_mem_readAfter.mpr ⟨ref, href, rfl, rfl, hexpands⟩
      have hmem := Commands.param_mem hbehaves hparam hchanges
      rw [handedText, read_expandBuildVars h.kept] at hmem
      exact param_not_mem_fillItem hmem
  · rename_i hexpands
    have hfill := h.unexpanded ref href (by simpa using hexpands)
    rw [hsource] at hfill ⊢
    exact fill_eq_source.mp hfill

end Preserved

/-- A text in which every replacement agrees behaves as before. --/
theorem behaves_of_agrees (henv : withVars vars env = env) (h : ∀ ref ∈ r.references command, Agrees c vars command env ref)
    {β : Type} {run : List (Item r.Pos) → Env → β} (hrun : Lawful r c.changes run) :
    run (r.read (expandBuildVars command vars)) env = run (r.read command) (withVars vars env) := by
  rw [read_expandBuildVars fun ref href => (h ref href).kept, henv]
  refine c.lawful.run_fill (r.read command) [] (fun q name hmem => ?_) hrun
  obtain ⟨ref, href, rfl, rfl, hexpands⟩ := Reader.param_mem_readAfter.mp hmem
  have hagrees := h ref href
  rw [Agrees, if_pos hexpands] at hagrees
  obtain ⟨v, hget, hinert, hsame⟩ := hagrees
  rw [fill_of_get hget]
  exact ⟨withVars_eq_iff.mp henv _ v hget, hinert, hsame⟩

/-- The words of the JSON form are handed on when every replacement agrees. --/
theorem expandBuildVars_quoteArgv (h : ∀ ref ∈ r.references (quoteArgv json), Agrees c vars (quoteArgv json) env ref) :
    expandBuildVars (quoteArgv json) vars = quoteArgv json :=
  filled_self fun ref href => ⟨references_quoteArgv json ref href, (h ref href).kept⟩

/-- The text that is handed to the shell behaves as that of the instruction exactly when the shell has the variables of the build
    already, and every name after a `$` either stands for a variable of the build where the shell has a reference, with a
    value that is text there and that the command does not change, or stands where the shell has none and is its own value. --/
theorem run_preserved_iff (c : Commands r) (buildVars : StringMap) (stage : RunStage) (json : List Text)
    (arguments : Option Text) (env : Env) :
    Preserved c buildVars stage json arguments env ↔
      (∀ name v, JsObject.get name (runVars buildVars stage) = some v → env name = some v) ∧
        ∀ ref ∈ r.references (runText json arguments), Agrees c (runVars buildVars stage) (runText json arguments) env ref := by
  rw [← withVars_eq_iff]
  refine ⟨Preserved.agrees, fun ⟨henv, hagrees⟩ => ⟨?_, ?_, ?_, behaves_of_agrees henv hagrees, ?_⟩⟩
  · intro ref href hexpands
    have hkept := (hagrees ref href).kept
    rwa [Kept, if_neg (by simp [hexpands])] at hkept
  · intro ref href hexpands hnone
    have hagree := hagrees ref href
    rw [Agrees, if_pos hexpands] at hagree
    obtain ⟨v, hget, -⟩ := hagree
    rw [hnone] at hget
    cases hget
  · intro ref href hexpands v hget
    have hkept := (hagrees ref href).kept
    rwa [Kept, if_pos hexpands, fill_of_get hget] at hkept
  · intro hjson
    have hlength : json.length > 0 := List.length_pos_iff.mpr hjson
    unfold handedText
    rw [runText, if_pos hlength] at hagrees ⊢
    exact ⟨json.map shellQuote, expandBuildVars_quoteArgv hagrees, simpleCommand_quoted json⟩

end

/-- `echo "$A"` with `A=1`, in a shell that has `A=1`. --/
theorem run_preserved_quotes :
    Preserved (r := quoteReader) (.constant fun _ => False) [] ⟨"/rootfs".toList, [("A".toList, "1".toList)], "/".toList, []⟩ []
      (some "echo \"$A\"".toList) (fun k => if k = "A".toList then some "1".toList else none) := by
  refine (run_preserved_iff _ _ _ _ _ _).mpr ⟨fun name v hget => ?_, ?_⟩
  · by_cases hname : name = "A".toList
    · subst hname
      exact hget
    · have hnone : JsObject.get name [("A".toList, "1".toList)] = none := by
        rw [JsObject.get, List.find?_cons_of_neg (by simpa using Ne.symm hname)]
        rfl
      exact absurd (hnone.symm.trans hget) (by simp)
  · have hrefs : quoteReader.references (runText [] (some "echo \"$A\"".toList)) =
        [⟨.word true, "A".toList, "$A".toList⟩] := rfl
    rw [hrefs]
    intro ref href
    rw [List.mem_singleton.mp href]
    exact ⟨"1".toList, rfl, ⟨rfl, rfl⟩, id⟩

/-- A loop variable is replaced by nothing, text in single quotes and the words of the JSON form are expanded, and a value becomes a
    command. --/
theorem run_rewritten :
    (handedText [] ⟨"/rootfs".toList, [], "/".toList, []⟩ [] (some "for i in 1; do echo $i; done".toList) =
        "for i in 1; do echo ; done".toList ∧
      ¬Preserved (r := quoteReader) (.constant (· = "i".toList)) [] ⟨"/rootfs".toList, [], "/".toList, []⟩ []
        (some "for i in 1; do echo $i; done".toList) fun _ => none) ∧
    (handedText [] ⟨"/rootfs".toList, [("A".toList, "1".toList)], "/".toList, []⟩ [] (some "echo '$A'".toList) =
        "echo '1'".toList ∧
      ¬Preserved (r := quoteReader) (.constant fun _ => False) [] ⟨"/rootfs".toList, [("A".toList, "1".toList)], "/".toList, []⟩ []
        (some "echo '$A'".toList) fun k => if k = "A".toList then some "1".toList else none) ∧
    (handedText [] ⟨"/rootfs".toList, [("A".toList, "1".toList)], "/".toList, []⟩ ["echo".toList, "$A".toList] none =
        "'echo' '1'".toList ∧
      ¬Preserved (r := quoteReader) (.constant fun _ => False) [] ⟨"/rootfs".toList, [("A".toList, "1".toList)], "/".toList, []⟩
        ["echo".toList, "$A".toList] none fun k => if k = "A".toList then some "1".toList else none) ∧
    (handedText [] ⟨"/rootfs".toList, [("A".toList, "`id`".toList)], "/".toList, []⟩ [] (some "echo \"$A\"".toList) =
        "echo \"`id`\"".toList ∧
      ¬Preserved (r := quoteReader) (.constant fun _ => False) [] ⟨"/rootfs".toList, [("A".toList, "`id`".toList)], "/".toList, []⟩ []
        (some "echo \"$A\"".toList) fun k => if k = "A".toList then some "`id`".toList else none) := by
  refine ⟨⟨rfl, fun h => ?_⟩, ⟨rfl, fun h => ?_⟩, ⟨rfl, fun h => ?_⟩, rfl, fun h => ?_⟩
  · have hkept := h.undefined ⟨.word false, "i".toList, "$i".toList⟩ List.mem_cons_self rfl rfl
    cases hkept
  · have hkept := h.unexpanded ⟨.single, "A".toList, "$A".toList⟩ List.mem_cons_self rfl
    cases hkept
  · have hkept := h.unexpanded ⟨.single, "A".toList, "$A".toList⟩ List.mem_cons_self rfl
    cases hkept
  · obtain ⟨hliteral, -⟩ := h.inert ⟨.word true, "A".toList, "$A".toList⟩ List.mem_cons_self rfl _ rfl
    cases hliteral

end NodeVmm.Dockerfile
