import Mathlib.Data.Char
import Mathlib.Data.List.Lex
import NodeVmm.Lib.ShellScript
import NodeVmm.Theorems.DockerfileRun

/-! What a POSIX shell reads of the texts that `quoteArgv` and `renderEnvFile` write: the words as they were, and a file whose
    lines are a comment and exports. -/

namespace NodeVmm.RootfsCache
open Shell StableJson
open Dockerfile (unquote_shellQuote isWord_shellQuote simpleCommand_quoted)
variable {σ : Type} {s : State σ} {env : StringMap} {e : Text × Text}

/-! ### Words -/

/-- The shell reads the quoted words as one command with these words. --/
theorem commands_quoteArgv (argv : List Text) :
    commands (quoteArgv argv) = some (if argv = [] then [] else [⟨[], argv⟩]) := by
  split
  · rename_i hnil
    subst hnil
    rfl
  · rename_i hne
    refine commands_words (mt List.map_eq_nil_iff.mp hne) (fun w hw => ?_) (simpleCommand_quoted argv)
    obtain ⟨value, -, rfl⟩ := List.mem_map.mp hw
    exact isWord_shellQuote value

/-! ### Exports -/

theorem isIdentifier_eq (name : Text) : isIdentifier name = isName name := by
  have hstart : ∀ c : Char, identifierStart c = isNameStart c := by
    intro c
    have halpha : c.isAlpha = (decide ('A' ≤ c ∧ c ≤ 'Z') || ('a' ≤ c && c ≤ 'z')) := rfl
    rw [identifierStart, isNameStart, halpha, Bool.decide_and]
  have hchar : ∀ c : Char, (identifierStart c || c.isDigit) = isNameChar c := by
    intro c
    rw [hstart, isNameChar]
    rfl
  cases name with
  | nil => rfl
  | cons c rest =>
    have hall : (rest.all fun c => identifierStart c || c.isDigit) = rest.all isNameChar := by simp only [hchar]
    have hname : isNameStart c = true → isNameChar c = true := fun h => by simp [isNameChar, h]
    rw [isIdentifier, hall, hstart, isName, List.head?_cons, Option.any_some, List.all_cons]
    cases hc : isNameStart c
    · rfl
    · rw [hname hc]
      rfl

theorem unquote_exportWord (he : isName e.1 = true) : unquote (e.1 ++ '=' :: shellQuote e.2) = some (e.1 ++ '=' :: e.2) := by
  have hordinary : ∀ c ∈ e.1 ++ ['='], ordinary c = true := by
    intro c hc
    rcases List.mem_append.mp hc with hc | hc
    · exact ordinary_of_isNameChar (isNameChar_of_isName he c hc)
    · rw [List.mem_singleton.mp hc]
      rfl
  have hvalue : unquoteFrom .plain (shellQuote e.2) = some e.2 := unquote_shellQuote e.2
  rw [unquote, List.append_cons, unquoteFrom_ordinary hordinary, hvalue]
  simp

theorem export_blank : "export ".toList = "export".toList ++ [' '] := by decide

theorem isWord_export : isWord "export".toList = true := by decide

theorem exportLine_eq (e : Text × Text) : exportLine e = Text.join ' ' ["export".toList, e.1 ++ '=' :: shellQuote e.2] := by
  have hjoin : ∀ w x : Text, Text.join ' ' [w, x] = w ++ ' ' :: x := fun w x => by simp [Text.join]
  rw [hjoin]
  unfold exportLine
  rw [export_blank, List.append_assoc, List.append_assoc, List.singleton_append]

theorem simpleCommand_export (he : isName e.1 = true) :
    simpleCommand ["export".toList, e.1 ++ '=' :: shellQuote e.2] = some (exportCommand e) := by
  have hassignment : assignment "export".toList = none := by decide
  have hreserved : "export".toList ∉ reserved := by decide
  have hexport : unquote "export".toList = some "export".toList := by decide
  generalize hword : "export".toList = word at hassignment hreserved hexport
  rw [simpleCommand, hassignment]
  dsimp only
  rw [if_neg hreserved, List.mapM_cons, hexport, List.mapM_cons, unquote_exportWord he, exportCommand, hword]
  rfl

/-- A line of the file exports its variable. --/
theorem commands_exportLine (he : isName e.1 = true) (t : Text) :
    commands (exportLine e ++ '\n' :: t) = (commands t).map (exportCommand e :: ·) := by
  have hword : isWord (e.1 ++ '=' :: shellQuote e.2) = true := isWord_assignment he (unquote_shellQuote e.2)
  rw [exportLine_eq]
  exact commands_line (List.cons_ne_nil _ _)
    (List.forall_mem_cons.mpr ⟨isWord_export, List.forall_mem_cons.mpr ⟨hword, nofun⟩⟩) (simpleCommand_export he)

/-- The shell reads the file as the exports of the variables with a valid name, in the order of their names. --/
theorem commands_renderEnvFile (le : Text → Text → Bool) (env : StringMap) : commands (renderEnvFile le env) =
    some (((sortByName le env).filter fun e => isIdentifier e.1).map exportCommand) := by
  have hlines : ∀ es : StringMap, (∀ e ∈ es, isIdentifier e.1 = true) →
      commands (es.flatMap fun e => exportLine e ++ ['\n']) = some (es.map exportCommand) := by
    intro es
    induction es with
    | nil => exact fun _ => rfl
    | cons e es ih =>
      intro h
      obtain ⟨he, hes⟩ := List.forall_mem_cons.mp h
      rw [isIdentifier_eq] at he
      rw [List.flatMap_cons, List.append_assoc, List.singleton_append, commands_exportLine he, ih hes]
      rfl
  have htext : renderEnvFile le env = '#' :: (" Generated by node-vmm.".toList ++ '\n' ::
      ((sortByName le env).filter fun e => isIdentifier e.1).flatMap fun e => exportLine e ++ ['\n']) := by
    rw [renderEnvFile, Text.join_append_singleton (List.cons_ne_nil _ _), List.flatMap_cons, List.flatMap_map]
    rfl
  rw [htext, commands_comment (by decide)]
  exact hlines _ fun e he => (List.mem_filter.mp he).2

theorem assign_env (s : State σ) (es : List (Text × Text)) : (s.assign es).rest = s.rest ∧
    ∀ k, (s.assign es).env k = ((es.filter fun e => e.1 = k).getLast?.map Prod.snd).or (s.env k) := by
  unfold State.assign
  induction es generalizing s with
  | nil => exact ⟨rfl, fun _ => rfl⟩
  | cons e es ih =>
    obtain ⟨hrest, henv⟩ := ih { s with env := fun k => if k = e.1 then some e.2 else s.env k }
    refine ⟨hrest, fun k => ?_⟩
    rw [List.foldl_cons, henv]
    by_cases hk : e.1 = k
    · subst hk
      cases hfilter : es.filter fun x => x.1 = e.1 with
      | nil => simp [hfilter]
      | cons x xs => simp [hfilter, List.getLast?_cons]
    · simp [hk, Ne.symm hk]

/-- Of the variables that are exported, each has its value, whatever the order. --/
theorem getLast?_exported (le : Text → Text → Bool) (henv : JsObject.Distinct env) (k : Text) :
    ((((sortByName le env).filter fun e => isIdentifier e.1).filter fun e => e.1 = k).getLast?.map Prod.snd) =
      if isName k then JsObject.get k env else none := by
  have hperm : (sortByName le env).Perm env := List.perm_insertionSort _ env
  have hdistinct : JsObject.Distinct (sortByName le env) := (hperm.map Prod.fst).nodup_iff.mpr henv
  have hvalue : ((sortByName le env).filter fun e => e.1 = k).getLast?.map Prod.snd = JsObject.get k env := by
    rw [JsObject.getLast?_filter hdistinct]
    exact JsObject.get_perm hdistinct hperm
  rw [List.filter_filter]
  split
  · rename_i hk
    rw [← hvalue]
    congr 2
    refine List.filter_congr fun e _ => ?_
    by_cases he : e.1 = k
    · simp [he, isIdentifier_eq, hk]
    · simp [he]
  · rename_i hk
    have hnil : (sortByName le env).filter (fun e => decide (e.1 = k) && isIdentifier e.1) = [] := by
      refine List.filter_eq_nil_iff.mpr fun e _ he => hk ?_
      obtain ⟨heq, hname⟩ := Bool.and_eq_true_iff.mp he
      rw [isIdentifier_eq, of_decide_eq_true heq] at hname
      exact hname
    rw [hnil]
    rfl

/-- Sourcing the file sets the variables with a valid name to their values and does nothing else. --/
theorem source_renderEnvFile (le : Text → Text → Bool) (henv : JsObject.Distinct env)
    (other : SimpleCommand → State σ → Outcome σ) (s : State σ) :
    source other (renderEnvFile le env) s = some ⟨[], some
      ({ s with env := fun k => if isName k then (JsObject.get k env).or (s.env k) else s.env k }, true)⟩ := by
  have hnames : ∀ e ∈ (sortByName le env).filter fun e => isIdentifier e.1, isName e.1 = true := by
    intro e he
    rw [← isIdentifier_eq]
    exact (List.mem_filter.mp he).2
  obtain ⟨hrest, hassigned⟩ := assign_env s ((sortByName le env).filter fun e => isIdentifier e.1)
  rw [source, commands_renderEnvFile, Option.map_some, runCommands_exports hnames]
  refine congrArg (fun t => some (Outcome.mk [] (some (t, true)))) ?_
  have hafter : (s.assign ((sortByName le env).filter fun e => isIdentifier e.1)).env =
      fun k => if isName k then (JsObject.get k env).or (s.env k) else s.env k := by
    funext k
    rw [hassigned, getLast?_exported le henv]
    split <;> simp
  generalize s.assign ((sortByName le env).filter fun e => isIdentifier e.1) = t at hrest hafter
  obtain ⟨tenv, trest⟩ := t
  exact congrArg₂ State.mk hafter hrest

/-! ### The round trip -/

/-- What `quoteArgv` writes is one command with the words it was given, and the file that `renderEnvFile` writes exports the
    variables of the map that have a valid name, with their values. Sourcing it starts no process, and the shell is otherwise
    as it was. --/
theorem shell_round_trip :
    (∀ argv : List Text, commands (quoteArgv argv) = some (if argv = [] then [] else [⟨[], argv⟩])) ∧
    ∀ (σ : Type) (le : Text → Text → Bool) (env : StringMap), JsObject.Distinct env →
      ∀ (other : SimpleCommand → State σ → Outcome σ) (s : State σ), source other (renderEnvFile le env) s = some ⟨[], some
        ({ s with env := fun k => if isName k then (JsObject.get k env).or (s.env k) else s.env k }, true)⟩ :=
  ⟨commands_quoteArgv, fun _ le _ henv other s => source_renderEnvFile le henv other s⟩

/-- Words with a quote, a newline and a `$`, and a map with a value like them and a name that is not valid. --/
theorem shell_round_trip_quotes :
    commands (quoteArgv ["it's".toList, "$HOME\n`id`".toList]) = some [⟨[], ["it's".toList, "$HOME\n`id`".toList]⟩] ∧
    source (fun _ s => ⟨[], some (s, false)⟩)
      (renderEnvFile (fun a b => decide (a ≤ b)) [("MOTD".toList, "'\n$(id)\\".toList), ("npm.x".toList, [])])
      ⟨fun _ => none, ()⟩ = some ⟨[], some (⟨fun k => if isName k then
        (JsObject.get k [("MOTD".toList, "'\n$(id)\\".toList), ("npm.x".toList, [])]).or none else none, ()⟩, true)⟩ :=
  ⟨shell_round_trip.1 _, shell_round_trip.2 Unit _ _ (by simp [JsObject.Distinct]) _ _⟩

end NodeVmm.RootfsCache
