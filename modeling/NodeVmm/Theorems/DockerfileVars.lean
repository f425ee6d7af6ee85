import NodeVmm.DockerfileVars
import NodeVmm.Theorems.RootfsCache

/-! The variables of a Dockerfile against the scoping rules of Docker: builds whose words use settled variables only substitute the
    values of the rules. -/

namespace NodeVmm.Dockerfile
open RootfsCache (StringMap protoKey assign imageEnvToMap distinct_assign)

/-! ### The rules -/

/-- What is in scope: the arguments before the first FROM, those of the current stage, and the environments of the stages with the
    current one first. What is substituted is recorded. --/
structure Scopes where
  globals : Text → Option Text
  args : Text → Option Text
  stages : List (Option Text × (Text → Option Text))
  expansions : List Expansion

namespace Scopes

def initial : Scopes := ⟨fun _ => none, fun _ => none, [], []⟩

/-- ENV overrides ARG, and only what the stage itself declares is there. --/
def value (s : Scopes) (v : Text) : Option Text :=
  match s.stages with
  | [] => s.globals v
  | (_, env) :: _ => (env v).or (s.args v)

/-- One word of ARG: a build argument overrides the default, and a stage takes over a global argument that it names. --/
def declare (buildArgs : StringMap) (s : Scopes) (raw : Text) : Scopes :=
  let key := raw.takeWhile (· ≠ '=')
  let given := (JsObject.get key buildArgs).or (if '=' ∈ raw then some (raw.drop (key.length + 1)) else none)
  if s.stages.isEmpty then { s with globals := Function.update s.globals key (given.or (s.globals key)) }
  else { s with args := Function.update s.args key (given.or ((s.globals key).or (s.args key))) }

/-- The environment of an image: a variable has the last value given. --/
def imageEnv (items : List Text) (v : Text) : Option Text :=
  ((items.filter fun item => v ≠ [] ∧ '=' ∈ item ∧ item.takeWhile (· ≠ '=') = v).getLast?).map (·.drop (v.length + 1))

/-- The environment after the pairs of one ENV, with the values of the variables before it. --/
def setAll (value : Text → Option Text) (properties : List (Text × Text)) (env : Text → Option Text) (v : Text) : Option Text :=
  ((properties.filter (·.1 = v)).getLast?.map fun p => substitute value p.2).or (env v)

def stageEnv (images : Text → Except String (List Text)) (s : Scopes) (image : Text) : Except String (Text → Option Text) :=
  match s.stages.find? (·.1 = some image) with
  | some stage => .ok stage.2
  | none => if image = "scratch".toList then .ok (imageEnv []) else (images image).map imageEnv

def step (buildArgs : StringMap) (images : Text → Except String (List Text)) (s : Scopes) (instruction : Instruction) :
    Except String Scopes :=
  match instruction, s.stages with
  | .arg words, _ => .ok (words.foldl (declare buildArgs) s)
  | .from word stage, _ => do
    let image := substitute s.globals word
    if image = [] then throw "Dockerfile FROM requires an image"
    let env ← s.stageEnv images image
    pure
      { s with
        args := fun _ => none
        stages := (stage, env) :: s.stages
        expansions := s.expansions ++ [expansion s.globals word] }
  | _, [] => .error ("Dockerfile " ++ instruction.keyword ++ " appears before FROM")
  | .env properties, (name, env) :: rest =>
    .ok
      { s with
        stages := (name, setAll s.value properties env) :: rest
        expansions := s.expansions ++ properties.map fun p => expansion s.value p.2 }
  | .label properties, _ :: _ => .ok { s with expansions := s.expansions ++ properties.map fun p => expansion s.value p.2 }
  | .workdir target, _ :: _ => .ok { s with expansions := s.expansions ++ [expansion s.value target] }
  | .copy _ words, _ :: _ =>
    if words.length < 2 then .error ("Dockerfile " ++ instruction.keyword ++ " requires source and destination")
    else .ok { s with expansions := s.expansions ++ words.map (expansion s.value) }

def run (buildArgs : StringMap) (images : Text → Except String (List Text)) : Scopes → List Instruction → Except String Scopes
  | s, [] => .ok s
  | s, instruction :: rest => do
    let s ← s.step buildArgs images instruction
    run buildArgs images s rest

end Scopes

/-! ### Words that are settled -/

/-- The default of the first ARG of the file that names the variable, which is empty when there is none in the word. --/
def firstDefault (declared : List Text) (v : Text) : Option Text :=
  (declared.find? fun raw => raw.takeWhile (· ≠ '=') = v).map (·.drop (v.length + 1))

/-- The variable is set by ENV; or it is a build argument that is declared in the scope, or is empty; or it is no build argument, and
    the first ARG of the file that names it has the default that is in effect in the scope. --/
def Settled (buildArgs : StringMap) (declared : List Text) (env args : Text → Option Text) (v : Text) : Prop :=
  (env v ≠ none ∧ v ≠ protoKey) ∨
  (env v = none ∧ match JsObject.get v buildArgs with
    | some b => args v = some b ∨ (args v = none ∧ b = [])
    | none => prototypeMember v = none ∧ (firstDefault declared v).getD [] = (args v).getD [])

instance {buildArgs : StringMap} {declared : List Text} {env args : Text → Option Text} {v : Text} :
    Decidable (Settled buildArgs declared env args v) :=
  match h : JsObject.get v buildArgs with
  | some b =>
    decidable_of_iff ((env v ≠ none ∧ v ≠ protoKey) ∨ (env v = none ∧ (args v = some b ∨ (args v = none ∧ b = []))))
      (by rw [Settled, h])
  | none =>
    decidable_of_iff ((env v ≠ none ∧ v ≠ protoKey) ∨
      (env v = none ∧ prototypeMember v = none ∧ (firstDefault declared v).getD [] = (args v).getD [])) (by rw [Settled, h])

/-- The variables of a word of the current stage are settled. --/
def WordOk (buildArgs : StringMap) (declared : List Text) (s : Scopes) (word : Text) : Prop :=
  match s.stages with
  | [] => True
  | (_, env) :: _ => ∀ v ∈ references word, Settled buildArgs declared env s.args v

instance {buildArgs : StringMap} {declared : List Text} {s : Scopes} {word : Text} : Decidable (WordOk buildArgs declared s word) :=
  match h : s.stages with
  | [] => .isTrue (by rw [WordOk, h]; trivial)
  | (_, env) :: _ => decidable_of_iff (∀ v ∈ references word, Settled buildArgs declared env s.args v) (by rw [WordOk, h])

def StepOk (buildArgs : StringMap) (declared : List Text) (s : Scopes) : Instruction → Prop
  | .arg _ => True
  | .from image _ => ∀ v ∈ references image, Settled buildArgs declared (fun _ => none) s.globals v
  | .env properties => (∀ p ∈ properties, WordOk buildArgs declared s p.2) ∧
      properties.Pairwise fun p q => p.1 ∈ references q.2 → substitute s.value p.2 = (s.value p.1).getD []
  | .label properties => ∀ p ∈ properties, WordOk buildArgs declared s p.2
  | .workdir target => WordOk buildArgs declared s target
  | .copy _ words => ∀ word ∈ words, WordOk buildArgs declared s word

instance {buildArgs : StringMap} {declared : List Text} {s : Scopes} : ∀ i : Instruction, Decidable (StepOk buildArgs declared s i)
  | .arg _ => inferInstanceAs (Decidable True)
  | .from image _ =>
    inferInstanceAs (Decidable (∀ v ∈ references image, Settled buildArgs declared (fun _ => none) s.globals v))
  | .env properties => inferInstanceAs (Decidable ((∀ p ∈ properties, WordOk buildArgs declared s p.2) ∧
      properties.Pairwise fun p q => p.1 ∈ references q.2 → substitute s.value p.2 = (s.value p.1).getD []))
  | .label properties => inferInstanceAs (Decidable (∀ p ∈ properties, WordOk buildArgs declared s p.2))
  | .workdir target => inferInstanceAs (Decidable (WordOk buildArgs declared s target))
  | .copy _ words => inferInstanceAs (Decidable (∀ word ∈ words, WordOk buildArgs declared s word))

def Instruction.declares : Instruction → List Text
  | .arg words => words
  | _ => []

/-- Every step of a build from the state, after the words of ARG that were declared. --/
def RunOk (buildArgs : StringMap) (images : Text → Except String (List Text)) : List Text → Scopes → List Instruction → Prop
  | _, _, [] => True
  | declared, s, instruction :: rest => StepOk buildArgs declared s instruction ∧
      match s.step buildArgs images instruction with
      | .error _ => True
      | .ok s' => RunOk buildArgs images (declared ++ instruction.declares) s' rest

/-! ### Values -/

section
variable {f g : Text → Option Text} {word k l x : Text} {m : StringMap}

/-- A word depends on the values of its variables only. --/
theorem substitute_congr (h : ∀ v ∈ references word, (f v).getD [] = (g v).getD []) : substitute f word = substitute g word := by
  refine List.flatMap_congr fun piece hpiece => ?_
  cases piece with
  | char c => rfl
  | ref name => exact h name (List.mem_filterMap.mpr ⟨_, hpiece, rfl⟩)

theorem expansion_congr (h : ∀ v ∈ references word, (f v).getD [] = (g v).getD []) : expansion f word = expansion g word := by
  refine congrArg (Expansion.mk word) (List.map_congr_left fun v hv => ?_)
  rw [h v hv]

theorem get_assign : JsObject.get l (assign k x m) =
    if k = protoKey then JsObject.get l m else if l = k then some x else JsObject.get l m := by
  rw [assign]
  split
  · rfl
  · exact JsObject.get_set

end

/-! ### The variables of the code -/

/-- The one map of the build holds the build arguments and the first default of every other argument. --/
def VarsRel (buildArgs : StringMap) (declared : List Text) (buildVars : StringMap) : Prop :=
  ∀ v, JsObject.get v buildVars =
    (JsObject.get v buildArgs).or (if (prototypeMember v).isSome then none else firstDefault declared v)

/-- The environment of a stage, where no assignment makes a property `__proto__`. --/
structure EnvRel (m : StringMap) (env : Text → Option Text) : Prop where
  distinct : JsObject.Distinct m
  get : ∀ v, JsObject.get v m = if v = protoKey then none else env v

section
variable {buildArgs buildVars m : StringMap} {declared : List Text} {env args : Text → Option Text} {v raw : Text}

theorem firstDefault_snoc : firstDefault (declared ++ [raw]) v =
    (firstDefault declared v).or (if raw.takeWhile (· ≠ '=') = v then some (raw.drop (v.length + 1)) else none) := by
  rw [firstDefault, firstDefault, List.find?_append]
  cases declared.find? fun raw => raw.takeWhile (· ≠ '=') = v with
  | some first => rfl
  | none =>
    by_cases h : raw.takeWhile (· ≠ '=') = v
    · rw [if_pos h, List.find?_singleton, if_pos (decide_eq_true h)]
      rfl
    · rw [if_neg h, List.find?_singleton, if_neg (by simpa using h)]
      rfl

theorem VarsRel.declare (h : VarsRel buildArgs declared buildVars) (raw : Text) :
    VarsRel buildArgs (declared ++ [raw]) (declareArg buildVars raw) := by
  intro v
  have hv := h v
  rw [firstDefault_snoc, declareArg]
  generalize raw.takeWhile (· ≠ '=') = key
  by_cases hkey : key = v
  · subst hkey
    rw [if_pos rfl]
    cases hproto : prototypeMember key with
    | some text =>
      have hthere : (lookup buildVars key).isSome = true := by simp [lookup, hproto]
      rw [hproto] at hv
      simp only [hthere, if_true, hv, Option.isSome_some]
    | none =>
      rw [hproto] at hv
      simp only [lookup, hproto, Option.or_none, Option.isSome_none, Bool.false_eq_true, if_false] at hv ⊢
      rw [← Option.or_assoc, ← hv]
      cases hget : JsObject.get key buildVars with
      | some value => simp [hget]
      | none => simp [JsObject.get_set]
  · rw [if_neg hkey, Option.or_none, ← hv]
    split
    · rfl
    · rw [JsObject.get_set, if_neg (Ne.symm hkey)]

theorem VarsRel.foldl : ∀ (words : List Text) {declared : List Text} {buildVars : StringMap},
    VarsRel buildArgs declared buildVars → VarsRel buildArgs (declared ++ words) (words.foldl declareArg buildVars)
  | [], _, _, h => by simpa using h
  | raw :: words, _, _, h => by
    have hrest := VarsRel.foldl words (h.declare raw)
    rwa [List.append_assoc, List.singleton_append] at hrest

/-- The code finds the value of a settled variable. --/
theorem lookup_of_settled (hvars : VarsRel buildArgs declared buildVars) (hm : JsObject.Distinct m)
    (hget : JsObject.get v m = if v = protoKey then none else env v) (h : Settled buildArgs declared env args v) :
    (lookup (JsObject.spread buildVars m) v).getD [] = ((env v).or (args v)).getD [] := by
  rw [lookup, JsObject.get_spread_of_distinct hm, hget, hvars v]
  rcases h with ⟨henv, hproto⟩ | ⟨henv, hargs⟩
  · obtain ⟨value, hvalue⟩ := Option.ne_none_iff_exists'.mp henv
    rw [if_neg hproto, hvalue]
    rfl
  · rw [henv]
    cases hb : JsObject.get v buildArgs with
    | some b =>
      rw [hb] at hargs
      rcases hargs with hargs | ⟨hargs, rfl⟩
      · simp [hargs]
      · simp [hargs]
    | none =>
      rw [hb] at hargs
      obtain ⟨hmember, hdefault⟩ := hargs
      simp [hmember, hdefault]

theorem EnvRel.assign {name value : Text} {env' : Text → Option Text} (h : EnvRel m env)
    (henv : ∀ v, env' v = if name = v then some value else env v) : EnvRel (assign name value m) env' where
  distinct := distinct_assign h.distinct
  get := by
    intro v
    rw [get_assign, henv, h.get v]
    by_cases hname : name = protoKey
    · rw [if_pos hname]
      by_cases hv : v = protoKey
      · rw [if_pos hv, if_pos hv]
      · have hnv : name ≠ v := fun h => hv (h.symm.trans hname)
        rw [if_neg hv, if_neg hv, if_neg hnv]
    · rw [if_neg hname]
      by_cases hv : v = name
      · subst hv
        rw [if_pos rfl, if_pos rfl, if_neg hname]
      · rw [if_neg hv, if_neg (Ne.symm hv)]

theorem imageEnv_snoc {items : List Text} {item : Text} : Scopes.imageEnv (items ++ [item]) v =
    if v ≠ [] ∧ '=' ∈ item ∧ item.takeWhile (· ≠ '=') = v then some (item.drop (v.length + 1)) else Scopes.imageEnv items v := by
  rw [Scopes.imageEnv, Scopes.imageEnv, List.filter_append]
  split
  · rename_i h
    rw [List.filter_cons_of_pos (by simpa using h), List.filter_nil, List.getLast?_concat]
    rfl
  · rename_i h
    rw [List.filter_cons_of_neg (by simpa using h), List.filter_nil, List.append_nil]

theorem envRel_imageEnv (items : List Text) : EnvRel (imageEnvToMap items) (Scopes.imageEnv items) := by
  have hfold : ∀ (rest done : List Text) (m : StringMap), EnvRel m (Scopes.imageEnv done) →
      EnvRel (rest.foldl (fun m item =>
        let key := item.takeWhile (· ≠ '=')
        if key ≠ [] ∧ '=' ∈ item then RootfsCache.assign key (item.drop (key.length + 1)) m else m) m)
        (Scopes.imageEnv (done ++ rest)) := by
    intro rest
    induction rest with
    | nil => exact fun done m hm => by rwa [List.append_nil]
    | cons item rest ih =>
      intro done m hm
      rw [List.append_cons done item rest]
      refine ih (done ++ [item]) _ ?_
      dsimp only
      split
      · rename_i hitem
        refine hm.assign fun v => ?_
        rw [imageEnv_snoc]
        by_cases hv : item.takeWhile (· ≠ '=') = v
        · subst hv
          rw [if_pos ⟨hitem.1, hitem.2, rfl⟩, if_pos rfl]
        · rw [if_neg fun h => hv h.2.2, if_neg hv]
      · rename_i hitem
        refine ⟨hm.distinct, fun v => ?_⟩
        have hno : ¬(v ≠ [] ∧ '=' ∈ item ∧ item.takeWhile (· ≠ '=') = v) := by
          rintro ⟨hne, heq, rfl⟩
          exact hitem ⟨hne, heq⟩
        rw [hm.get v, imageEnv_snoc, if_neg hno]
  exact hfold items [] [] ⟨List.nodup_nil, fun v => by split <;> rfl⟩

/-! ### One instruction ENV -/

theorem setAll_snoc {value : Text → Option Text} {properties : List (Text × Text)} {p : Text × Text} :
    Scopes.setAll value (properties ++ [p]) env v =
      if p.1 = v then some (substitute value p.2) else Scopes.setAll value properties env v := by
  rw [Scopes.setAll, Scopes.setAll, List.filter_append]
  split
  · rename_i h
    rw [List.filter_cons_of_pos (by simpa using h), List.filter_nil, List.getLast?_concat]
    rfl
  · rename_i h
    rw [List.filter_cons_of_neg (by simpa using h), List.filter_nil, List.append_nil]

/-- A pair sees the values before the instruction, for it uses no name that an earlier pair sets to something else. --/
theorem lookup_in_env {value : Text → Option Text} {done : List (Text × Text)} (hvars : VarsRel buildArgs declared buildVars)
    (hm : EnvRel m (Scopes.setAll value done env)) (hvalue : ∀ v, value v = (env v).or (args v))
    (h : Settled buildArgs declared env args v) (hdone : ∀ p ∈ done, p.1 = v → substitute value p.2 = (value v).getD []) :
    (lookup (JsObject.spread buildVars m) v).getD [] = (value v).getD [] := by
  by_cases hset : v ≠ protoKey ∧ ∃ p ∈ done, p.1 = v
  · obtain ⟨hproto, p, hp, hpv⟩ := hset
    have hne : done.filter (·.1 = v) ≠ [] := List.ne_nil_of_mem (List.mem_filter.mpr ⟨hp, decide_eq_true hpv⟩)
    have hlast := List.getLast_mem hne
    rw [List.mem_filter] at hlast
    rw [lookup, JsObject.get_spread_of_distinct hm.distinct, hm.get v, if_neg hproto, Scopes.setAll,
      List.getLast?_eq_getLast_of_ne_nil hne]
    exact hdone _ hlast.1 (of_decide_eq_true hlast.2)
  · have hget : JsObject.get v m = if v = protoKey then none else env v := by
      rw [hm.get v]
      by_cases hproto : v = protoKey
      · rw [if_pos hproto, if_pos hproto]
      · have hnil : done.filter (·.1 = v) = [] := by
          refine List.filter_eq_nil_iff.mpr fun p hp hpv => hset ⟨hproto, p, hp, of_decide_eq_true hpv⟩
        rw [if_neg hproto, if_neg hproto, Scopes.setAll, hnil]
        rfl
    rw [hvalue, lookup_of_settled hvars hm.distinct hget h]

theorem envRel_setEnv {value : Text → Option Text} (hvars : VarsRel buildArgs declared buildVars)
    (hvalue : ∀ v, value v = (env v).or (args v)) : ∀ (properties done : List (Text × Text)) (m : StringMap) (record : List Expansion),
    EnvRel m (Scopes.setAll value done env) → (∀ p ∈ properties, ∀ v ∈ references p.2, Settled buildArgs declared env args v) →
    (done ++ properties).Pairwise (fun p q => p.1 ∈ references q.2 → substitute value p.2 = (value p.1).getD []) →
    EnvRel (properties.foldl (setEnv buildVars) (m, record)).1 (Scopes.setAll value (done ++ properties) env) ∧
      (properties.foldl (setEnv buildVars) (m, record)).2 = record ++ properties.map fun p => expansion value p.2
  | [], done, m, record, hm, _, _ => by simpa using hm
  | q :: properties, done, m, record, hm, hok, hpairs => by
    have hlookup : ∀ v ∈ references q.2, (lookup (JsObject.spread buildVars m) v).getD [] = (value v).getD [] := by
      intro v hv
      refine lookup_in_env hvars hm hvalue (hok q List.mem_cons_self v hv) fun p hp hpv => ?_
      have hpq := (List.pairwise_append.mp hpairs).2.2 p hp q List.mem_cons_self
      rw [← hpv]
      exact hpq (hpv ▸ hv)
    have hsubstitute : expandBuildVars q.2 (JsObject.spread buildVars m) = substitute value q.2 := substitute_congr hlookup
    have hstep : EnvRel (RootfsCache.assign q.1 (expandBuildVars q.2 (JsObject.spread buildVars m)) m)
        (Scopes.setAll value (done ++ [q]) env) := by
      refine hm.assign fun v => ?_
      rw [setAll_snoc, hsubstitute]
    rw [List.append_cons done q properties] at hpairs
    obtain ⟨henv, hrecord⟩ := envRel_setEnv hvars hvalue properties (done ++ [q]) _
      (record ++ [expansion (lookup (JsObject.spread buildVars m)) q.2]) hstep
      (fun p hp => hok p (List.mem_cons_of_mem _ hp)) hpairs
    rw [List.append_cons done q properties]
    refine ⟨henv, hrecord.trans ?_⟩
    rw [expansion_congr hlookup, List.append_assoc]
    rfl

end

/-! ### Steps and runs -/

section
variable {buildArgs : StringMap} {images : Text → Except String (List Text)} {declared : List Text} {c : BuildState} {s : Scopes}

def StageRel (stage : DockerfileStage) (scope : Option Text × (Text → Option Text)) : Prop :=
  stage.name = scope.1 ∧ EnvRel stage.env scope.2

/-- The build and the rules are in step. --/
structure Rel (buildArgs : StringMap) (declared : List Text) (c : BuildState) (s : Scopes) : Prop where
  vars : VarsRel buildArgs declared c.buildVars
  stages : List.Forall₂ StageRel c.stages s.stages
  expansions : c.expansions = s.expansions

theorem find?_stage (image : Text) : ∀ {stages : List DockerfileStage} {scopes : List (Option Text × (Text → Option Text))},
    List.Forall₂ StageRel stages scopes →
    (stages.find? (·.name = some image) = none ∧ scopes.find? (·.1 = some image) = none) ∨
    ∃ stage scope, stages.find? (·.name = some image) = some stage ∧ scopes.find? (·.1 = some image) = some scope ∧
      StageRel stage scope
  | [], [], _ => Or.inl ⟨rfl, rfl⟩
  | stage :: stages, scope :: scopes, h => by
    obtain ⟨hhead, htail⟩ := List.forall₂_cons.mp h
    by_cases hname : stage.name = some image
    · have hscope : scope.1 = some image := hhead.1.symm.trans hname
      exact Or.inr ⟨stage, scope, List.find?_cons_of_pos (by simpa using hname), List.find?_cons_of_pos (by simpa using hscope), hhead⟩
    · have hscope : scope.1 ≠ some image := fun h => hname (hhead.1.trans h)
      rw [List.find?_cons_of_neg (by simpa using hname), List.find?_cons_of_neg (by simpa using hscope)]
      exact find?_stage image htail

/-- Both stages begin with the environment of one stage or image, or neither does. --/
theorem stageEnv_rel {image : Text} (h : List.Forall₂ StageRel c.stages s.stages) :
    (∃ e, stageEnv images c.stages image = .error e ∧ s.stageEnv images image = .error e) ∨
    ∃ m env, stageEnv images c.stages image = .ok m ∧ s.stageEnv images image = .ok env ∧ EnvRel m env := by
  rw [stageEnv, Scopes.stageEnv]
  rcases find?_stage image h with ⟨hc, hs⟩ | ⟨stage, scope, hc, hs, hrel⟩
  · rw [hc, hs]
    dsimp only
    split
    · exact Or.inr ⟨_, _, rfl, rfl, envRel_imageEnv []⟩
    · cases images image with
      | error e => exact Or.inl ⟨e, rfl, rfl⟩
      | ok items => exact Or.inr ⟨_, _, rfl, rfl, envRel_imageEnv items⟩
  · rw [hc, hs]
    exact Or.inr ⟨_, _, rfl, rfl, hrel.2⟩

theorem declare_stages : ∀ (words : List Text) (s : Scopes),
    (words.foldl (Scopes.declare buildArgs) s).stages = s.stages ∧ (words.foldl (Scopes.declare buildArgs) s).expansions = s.expansions
  | [], _ => ⟨rfl, rfl⟩
  | raw :: words, s => by
    obtain ⟨hstages, hexpansions⟩ := declare_stages words (s.declare buildArgs raw)
    have hone : (s.declare buildArgs raw).stages = s.stages ∧ (s.declare buildArgs raw).expansions = s.expansions := by
      rw [Scopes.declare]
      split <;> exact ⟨rfl, rfl⟩
    exact ⟨hstages.trans hone.1, hexpansions.trans hone.2⟩

/-- The variables of a word of the current stage have the values of the rules. --/
theorem lookup_wordOk {stage : DockerfileStage} {rest : List DockerfileStage} {word : Text} (h : Rel buildArgs declared c s)
    (hstages : c.stages = stage :: rest) (hok : WordOk buildArgs declared s word) :
    expansion (lookup (JsObject.spread c.buildVars stage.env)) word = expansion s.value word := by
  have hrel := h.stages
  rw [hstages] at hrel
  obtain ⟨⟨name, env⟩, scopes, hstage, -, hscopes⟩ := List.forall₂_cons_left_iff.mp hrel
  refine expansion_congr fun v hv => ?_
  have hvalue : s.value v = (env v).or (s.args v) := by rw [Scopes.value, hscopes]
  rw [WordOk, hscopes] at hok
  rw [hvalue]
  exact lookup_of_settled h.vars hstage.2.distinct (hstage.2.get v) (hok v hv)

theorem lookup_globals {word : Text} (h : Rel buildArgs declared c s)
    (hok : ∀ v ∈ references word, Settled buildArgs declared (fun _ => none) s.globals v) :
    ∀ v ∈ references word, (lookup c.buildVars v).getD [] = (s.globals v).getD [] := by
  intro v hv
  have hget : JsObject.get v ([] : StringMap) = if v = protoKey then none else none := (ite_self none).symm
  have hdistinct : JsObject.Distinct ([] : StringMap) := List.nodup_nil
  exact lookup_of_settled h.vars hdistinct hget (hok v hv)

theorem buildStep_from (word : Text) (stage : Option Text) : buildStep images c (.from word stage) =
    if expandBuildVars word c.buildVars = [] then .error "Dockerfile FROM requires an image"
    else (stageEnv images c.stages (expandBuildVars word c.buildVars)).map fun env =>
      { c with
        stages := ⟨stage, env⟩ :: c.stages
        expansions := c.expansions ++ [expansion (lookup c.buildVars) word] } := by
  rw [buildStep]
  by_cases hnil : expandBuildVars word c.buildVars = []
  · simp only [hnil, if_true]
    rfl
  · simp only [hnil, if_false]
    cases stageEnv images c.stages (expandBuildVars word c.buildVars) <;> rfl

theorem step_from (word : Text) (stage : Option Text) : s.step buildArgs images (.from word stage) =
    if substitute s.globals word = [] then .error "Dockerfile FROM requires an image"
    else (s.stageEnv images (substitute s.globals word)).map fun env =>
      { s with
        args := fun _ => none
        stages := (stage, env) :: s.stages
        expansions := s.expansions ++ [expansion s.globals word] } := by
  rw [Scopes.step]
  by_cases hnil : substitute s.globals word = []
  · simp only [hnil, if_true]
    rfl
  · simp only [hnil, if_false]
    cases s.stageEnv images (substitute s.globals word) <;> rfl

theorem from_rel {word : Text} {stage : Option Text} (h : Rel buildArgs declared c s)
    (hok : StepOk buildArgs declared s (.from word stage)) :
    (∃ e, buildStep images c (.from word stage) = .error e ∧ s.step buildArgs images (.from word stage) = .error e) ∨
    ∃ c' s', buildStep images c (.from word stage) = .ok c' ∧ s.step buildArgs images (.from word stage) = .ok s' ∧
      Rel buildArgs declared c' s' := by
  have hlookup := lookup_globals h hok
  have himage : expandBuildVars word c.buildVars = substitute s.globals word := substitute_congr hlookup
  rw [buildStep_from, step_from, himage, expansion_congr hlookup]
  by_cases hnil : substitute s.globals word = []
  · rw [if_pos hnil, if_pos hnil]
    exact Or.inl ⟨_, rfl, rfl⟩
  · rw [if_neg hnil, if_neg hnil]
    rcases stageEnv_rel h.stages with ⟨e, hc, hs⟩ | ⟨m, env, hc, hs, hrel⟩
    · rw [hc, hs]
      exact Or.inl ⟨e, rfl, rfl⟩
    · rw [hc, hs]
      exact Or.inr ⟨_, _, rfl, rfl, h.vars, .cons ⟨rfl, hrel⟩ h.stages, by rw [h.expansions]⟩

theorem env_rel {properties : List (Text × Text)} {current : DockerfileStage} {rest : List DockerfileStage} {name : Option Text}
    {env : Text → Option Text} {scopes : List (Option Text × (Text → Option Text))} (h : Rel buildArgs declared c s)
    (hc : c.stages = current :: rest) (hs : s.stages = (name, env) :: scopes)
    (hok : StepOk buildArgs declared s (.env properties)) :
    Rel buildArgs declared
      { c with
        stages := { current with env := (properties.foldl (setEnv c.buildVars) (current.env, c.expansions)).1 } :: rest
        expansions := (properties.foldl (setEnv c.buildVars) (current.env, c.expansions)).2 }
      { s with
        stages := (name, Scopes.setAll s.value properties env) :: scopes
        expansions := s.expansions ++ properties.map fun p => expansion s.value p.2 } := by
  have hstages := h.stages
  rw [hc, hs] at hstages
  obtain ⟨⟨hname, hcurrent⟩, hrest⟩ := List.forall₂_cons.mp hstages
  have hvalue : ∀ v, s.value v = (env v).or (s.args v) := by
    intro v
    rw [Scopes.value, hs]
  have hwords : ∀ p ∈ properties, ∀ v ∈ references p.2, Settled buildArgs declared env s.args v := by
    intro p hp
    have hword := hok.1 p hp
    rwa [WordOk, hs] at hword
  obtain ⟨henv, hrecord⟩ := envRel_setEnv h.vars hvalue properties [] current.env c.expansions hcurrent hwords hok.2
  refine ⟨h.vars, .cons ⟨hname, henv⟩ hrest, ?_⟩
  rw [← h.expansions]
  exact hrecord

/-- Words that are expanded with the variables of the current stage are expanded alike. --/
theorem words_rel {current : DockerfileStage} {rest : List DockerfileStage} {words : List Text} (h : Rel buildArgs declared c s)
    (hc : c.stages = current :: rest) (hok : ∀ word ∈ words, WordOk buildArgs declared s word) :
    Rel buildArgs declared
      { c with expansions := c.expansions ++ words.map (expansion (lookup (JsObject.spread c.buildVars current.env))) }
      { s with expansions := s.expansions ++ words.map (expansion s.value) } := by
  refine ⟨h.vars, h.stages, ?_⟩
  have hwords := List.map_congr_left fun word hword => lookup_wordOk h hc (hok word hword)
  rw [← h.expansions]
  exact congrArg (c.expansions ++ ·) hwords

/-- Before the first FROM there is no stage for the other instructions. --/
theorem step_before_from {instruction : Instruction} (hc : c.stages = []) (hs : s.stages = [])
    (harg : ∀ words, instruction ≠ .arg words) (hfrom : ∀ word stage, instruction ≠ .from word stage) :
    buildStep images c instruction = .error ("Dockerfile " ++ instruction.keyword ++ " appears before FROM") ∧
      s.step buildArgs images instruction = .error ("Dockerfile " ++ instruction.keyword ++ " appears before FROM") := by
  obtain ⟨buildVars, stages, record⟩ := c
  obtain ⟨globals, args, scopes, record'⟩ := s
  obtain rfl : stages = [] := hc
  obtain rfl : scopes = [] := hs
  cases instruction with
  | arg words => exact absurd rfl (harg words)
  | «from» word stage => exact absurd rfl (hfrom word stage)
  | env properties => exact ⟨rfl, rfl⟩
  | label properties => exact ⟨rfl, rfl⟩
  | workdir target => exact ⟨rfl, rfl⟩
  | copy add words => exact ⟨rfl, rfl⟩

/-- An instruction of a stage whose words are settled does what the rules say. --/
theorem step_in_stage {instruction : Instruction} {current : DockerfileStage} {rest : List DockerfileStage}
    {scope : Option Text × (Text → Option Text)} {scopes : List (Option Text × (Text → Option Text))}
    (h : Rel buildArgs declared c s) (hc : c.stages = current :: rest) (hs : s.stages = scope :: scopes)
    (hok : StepOk buildArgs declared s instruction) (harg : ∀ words, instruction ≠ .arg words)
    (hfrom : ∀ word stage, instruction ≠ .from word stage) :
    (∃ e, buildStep images c instruction = .error e ∧ s.step buildArgs images instruction = .error e) ∨
    ∃ c' s', buildStep images c instruction = .ok c' ∧ s.step buildArgs images instruction = .ok s' ∧ Rel buildArgs declared c' s' := by
  obtain ⟨name, env⟩ := scope
  have henv := fun properties (hok : StepOk buildArgs declared s (.env properties)) => env_rel h hc hs hok
  have hwords := fun words (hok : ∀ word ∈ words, WordOk buildArgs declared s word) => words_rel h hc hok
  obtain ⟨buildVars, stages, record⟩ := c
  obtain ⟨globals, args, scopes', record'⟩ := s
  obtain rfl : stages = current :: rest := hc
  obtain rfl : scopes' = (name, env) :: scopes := hs
  cases instruction with
  | arg words => exact absurd rfl (harg words)
  | «from» word stage => exact absurd rfl (hfrom word stage)
  | env properties => exact Or.inr ⟨_, _, rfl, rfl, henv properties hok⟩
  | label properties =>
    have hrel := hwords (properties.map Prod.snd) (List.forall_mem_map.mpr hok)
    rw [List.map_map, List.map_map] at hrel
    exact Or.inr ⟨_, _, rfl, rfl, hrel⟩
  | workdir target => exact Or.inr ⟨_, _, rfl, rfl, hwords [target] (List.forall_mem_singleton.mpr hok)⟩
  | copy add words =>
    by_cases hlen : words.length < 2
    · exact Or.inl ⟨_, if_pos hlen, if_pos hlen⟩
    · exact Or.inr ⟨_, _, if_neg hlen, if_neg hlen, hwords words hok⟩

/-- An instruction whose words are settled does what the rules say. --/
theorem step_rel (images : Text → Except String (List Text)) {instruction : Instruction} (h : Rel buildArgs declared c s) (hok : StepOk buildArgs declared s instruction) :
    (∃ e, buildStep images c instruction = .error e ∧ s.step buildArgs images instruction = .error e) ∨
    ∃ c' s', buildStep images c instruction = .ok c' ∧ s.step buildArgs images instruction = .ok s' ∧
      Rel buildArgs (declared ++ instruction.declares) c' s' := by
  have hother : instruction.declares = [] → (∀ words, instruction ≠ .arg words) → (∀ word stage, instruction ≠ .from word stage) →
      (∃ e, buildStep images c instruction = .error e ∧ s.step buildArgs images instruction = .error e) ∨
      ∃ c' s', buildStep images c instruction = .ok c' ∧ s.step buildArgs images instruction = .ok s' ∧
        Rel buildArgs (declared ++ instruction.declares) c' s' := by
    intro hdeclares harg hfrom
    rw [hdeclares, List.append_nil]
    rcases hc : c.stages with _ | ⟨current, rest⟩
    · have hs : s.stages = [] := List.forall₂_nil_left_iff.mp (hc ▸ h.stages)
      exact Or.inl ⟨_, step_before_from hc hs harg hfrom⟩
    · obtain ⟨scope, scopes, -, -, hs⟩ := List.forall₂_cons_left_iff.mp (hc ▸ h.stages)
      exact step_in_stage h hc hs hok harg hfrom
  cases instruction with
  | arg words =>
    obtain ⟨hstages, hexpansions⟩ := declare_stages words s
    refine Or.inr ⟨_, _, rfl, rfl, h.vars.foldl words, ?_, ?_⟩
    · rw [hstages]
      exact h.stages
    · rw [hexpansions]
      exact h.expansions
  | «from» word stage =>
    have hdeclares : declared ++ (Instruction.from word stage).declares = declared := List.append_nil _
    rw [hdeclares]
    exact from_rel h hok
  | env properties => exact hother rfl nofun nofun
  | label properties => exact hother rfl nofun nofun
  | workdir target => exact hother rfl nofun nofun
  | copy add words => exact hother rfl nofun nofun

/-- A run whose words are settled keeps in step with the rules. --/
theorem run_rel : ∀ {instructions : List Instruction} {declared : List Text} {c : BuildState} {s : Scopes},
    Rel buildArgs declared c s → RunOk buildArgs images declared s instructions →
    (build images c instructions).map (·.expansions) = (Scopes.run buildArgs images s instructions).map (·.expansions)
  | [], _, _, _, h, _ => congrArg Except.ok h.expansions
  | instruction :: rest, declared, c, s, h, hok => by
    rw [build, Scopes.run]
    rcases step_rel images h hok.1 with ⟨e, hc, hs⟩ | ⟨c', s', hc, hs, hrel⟩
    · rw [hc, hs]
      rfl
    · have hrest := hok.2
      rw [hs] at hrest
      rw [hc, hs]
      exact run_rel hrel hrest

end

/-- Pairs of one ENV with distinct names can be permuted. --/
theorem setAll_perm {value env : Text → Option Text} {properties properties' : List (Text × Text)}
    (hdistinct : JsObject.Distinct properties) (h : properties.Perm properties') :
    Scopes.setAll value properties env = Scopes.setAll value properties' env := by
  have hget : ∀ {ps : List (Text × Text)} {v : Text}, JsObject.Distinct ps →
      Scopes.setAll value ps env v = ((JsObject.get v ps).map (substitute value)).or (env v) := by
    intro ps v hps
    rw [Scopes.setAll, ← JsObject.getLast?_filter hps, Option.map_map]
    rfl
  funext v
  have hdistinct' : JsObject.Distinct properties' := (h.map Prod.fst).nodup_iff.mp hdistinct
  rw [hget hdistinct, hget hdistinct', JsObject.get_perm hdistinct h]

/-- A build substitutes the values of the scoping rules when every variable of its words is settled. --/
theorem build_scoped (buildArgs : StringMap) (images : Text → Except String (List Text)) (instructions : List Instruction)
    (h : RunOk buildArgs images [] .initial instructions) :
    (build images (.initial buildArgs) instructions).map (·.expansions) =
      (Scopes.run buildArgs images .initial instructions).map (·.expansions) := by
  have hvars : VarsRel buildArgs [] buildArgs := by
    intro v
    have hnone : (if (prototypeMember v).isSome then none else firstDefault [] v) = none := ite_self none
    rw [hnone, Option.or_none]
  exact run_rel ⟨hvars, .nil, rfl⟩ h

/-- A build argument before its default, a global argument that the stage names, and ENV over ARG. --/
def sampleBuild : List Instruction :=
  [.arg ["BASE=scratch".toList], .from "$BASE".toList none, .arg ["V=1".toList, "BASE".toList],
    .env [("P".toList, "/a$V".toList), ("Q".toList, "${BASE}".toList)], .workdir "$P/$Q/$V".toList]

theorem build_sample :
    (build (fun _ => .ok []) (.initial [("V".toList, "2".toList)]) sampleBuild).map (·.expansions) =
      (Scopes.run [("V".toList, "2".toList)] (fun _ => .ok []) .initial sampleBuild).map (·.expansions) := by
  refine build_scoped _ _ _ ⟨by decide, ?_⟩
  refine ⟨by decide, by decide, by decide, by decide, trivial⟩

/-- The argument of an earlier stage, a pair of the same ENV, and a member of the prototype. --/
theorem variables_leak :
    (∃ instructions, (build (fun _ => .ok []) (.initial []) instructions).map (·.expansions) ≠
      (Scopes.run [] (fun _ => .ok []) .initial instructions).map (·.expansions)) ∧
    (build (fun _ => .ok []) (.initial []) [.from "scratch".toList none, .env [("A".toList, "1".toList), ("B".toList, "$A".toList)]]).map
      (·.expansions.map (·.values)) = .ok [[], [], [("A".toList, "1".toList)]] ∧
    (build (fun _ => .ok []) (.initial []) [.from "scratch".toList none, .arg ["toString=x".toList], .workdir "$toString".toList]).map
      (·.expansions.map (·.values)) = .ok [[], [("toString".toList, "function toString() { [native code] }".toList)]] := by
  refine ⟨⟨[.from "scratch".toList none, .arg ["V=1".toList], .from "scratch".toList none, .arg ["V=2".toList],
    .workdir "$V".toList], ?_⟩, ?_, ?_⟩
  · decide
  · decide
  · decide

end NodeVmm.Dockerfile
