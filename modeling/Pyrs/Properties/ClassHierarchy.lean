import Pyrs.Library.ParentTables
import Pyrs.Model.Exceptions

/-!
# The class hierarchy and the names of classes

Two views of the exception classes that `Properties/HandlerSelection.lean` compares.

The machine's view is a walk over names (`InheritsName`), which `exceptionInherits_iff` shows to be
what the loop of `exception_inherits` decides.

The language's view is the hierarchy of class objects: `Ancestor` is the reflexive transitive
closure of "is a direct base", and `RunsClassActions` are the machines that class statements and
assignments to `__bases__` lead to.  The last section collects what the method resolution order of
a class contains.
-/

namespace Pyrs

/-! ## The walk over parent names -/

/-- The names from which the walk of `exception_inherits` arrives at `handlerName`. -/
inductive InheritsName (vm : Vm) (handlerName : String) : String → Prop
  | refl : InheritsName vm handlerName handlerName
  | exceptionGroup (h : handlerName = "Exception") : InheritsName vm handlerName "ExceptionGroup"
  | step {name parent : String} (hparent : vm.exceptionParentName name = some parent)
      (h : InheritsName vm handlerName parent) : InheritsName vm handlerName name

section Walk

variable {vm : Vm} {handlerName : String}

/-- Every parent name is a value of one of the two tables. -/
def Vm.parentNames (vm : Vm) : List String :=
  vm.exceptionParents.map Prod.snd ++ builtinExceptionParents.map Prod.snd

lemma mem_map_fst_of_lookup {table : List (String × String)} {name parent : String}
    (h : table.lookup name = some parent) : name ∈ table.map Prod.fst := by
  obtain ⟨before, after, rfl, -⟩ := List.lookup_eq_some_iff.1 h
  simp

lemma mem_map_snd_of_lookup {table : List (String × String)} {name parent : String}
    (h : table.lookup name = some parent) : parent ∈ table.map Prod.snd := by
  obtain ⟨before, after, rfl, -⟩ := List.lookup_eq_some_iff.1 h
  simp

lemma mem_parentNames {name parent : String} (h : vm.exceptionParentName name = some parent) :
    parent ∈ vm.parentNames := by
  rw [Vm.exceptionParentName] at h
  split at h
  next p hp =>
    exact List.mem_append_left _ (mem_map_snd_of_lookup (hp.trans h))
  next => exact List.mem_append_right _ (mem_map_snd_of_lookup h)

lemma inheritsName_of_loop {fuel : Nat} {seen : List String} {name : String}
    (h : vm.exceptionInheritsLoop handlerName fuel seen (some name) = true) :
    InheritsName vm handlerName name := by
  induction fuel generalizing seen name with
  | zero => simp [Vm.exceptionInheritsLoop] at h
  | succ fuel ih =>
    rw [Vm.exceptionInheritsLoop] at h
    split_ifs at h with hseen hgroup heq
    · obtain ⟨rfl, rfl⟩ := hgroup
      exact .exceptionGroup rfl
    · exact heq ▸ .refl
    · cases hp : vm.exceptionParentName name with
      | none => cases fuel <;> simp [hp, Vm.exceptionInheritsLoop] at h
      | some parent => exact .step hp (ih (hp ▸ h))

/-- Nothing is inherited from a set of names that is closed under parents and holds no goal. -/
lemma not_inheritsName_of_closed {names : String → Prop}
    (hgoal : ∀ n, names n → n ≠ handlerName ∧ ¬(n = "ExceptionGroup" ∧ handlerName = "Exception"))
    (hclosed : ∀ n p, names n → vm.exceptionParentName n = some p → names p) {name : String}
    (hname : names name) : ¬InheritsName vm handlerName name := by
  intro h
  induction h with
  | refl => exact (hgoal _ hname).1 rfl
  | exceptionGroup h => exact (hgoal _ hname).2 ⟨rfl, h⟩
  | step hparent _ ih => exact ih (hclosed _ _ hname hparent)

/-- The loop finds the handler when there is one above: the names it has seen are no goals, and
their parents have been seen or come next. -/
lemma loop_of_inheritsName {fuel : Nat} {seen : List String} {name : String}
    (hfuel : vm.parentNames.length < fuel + seen.length) (hnodup : seen.Nodup)
    (hmem : ∀ n ∈ name :: seen, n ∈ vm.parentNames)
    (hgoal : ∀ n ∈ seen,
      n ≠ handlerName ∧ ¬(n = "ExceptionGroup" ∧ handlerName = "Exception"))
    (hclosed : ∀ n ∈ seen, ∀ p, vm.exceptionParentName n = some p → p ∈ name :: seen)
    (h : InheritsName vm handlerName name) :
    vm.exceptionInheritsLoop handlerName fuel seen (some name) = true := by
  induction fuel generalizing seen name with
  | zero =>
    have hle := (List.subperm_of_subset hnodup
      fun n hn => hmem n (List.mem_cons_of_mem _ hn)).length_le
    omega
  | succ fuel ih =>
    rw [Vm.exceptionInheritsLoop]
    by_cases hseen : name ∈ seen
    · have hseenClosed : ∀ n p, n ∈ seen → vm.exceptionParentName n = some p → p ∈ seen := by
        intro n p hn hp
        rcases List.mem_cons.1 (hclosed n hn p hp) with rfl | hp'
        · exact hseen
        · exact hp'
      exact absurd h (not_inheritsName_of_closed hgoal hseenClosed hseen)
    by_cases hgroup : name = "ExceptionGroup" ∧ handlerName = "Exception"
    · rw [if_neg hseen, if_pos hgroup]
    by_cases heq : name = handlerName
    · rw [if_neg hseen, if_neg hgroup, if_pos heq]
    rw [if_neg hseen, if_neg hgroup, if_neg heq]
    cases h with
    | refl => exact absurd rfl heq
    | exceptionGroup h => exact absurd ⟨rfl, h⟩ hgroup
    | @step _ parent hparent h =>
      rw [hparent]
      refine ih ?_ (List.nodup_cons.2 ⟨hseen, hnodup⟩) ?_ ?_ ?_ h
      · simp only [List.length_cons]
        omega
      · intro n hn
        rcases List.mem_cons.1 hn with rfl | hn
        · exact mem_parentNames hparent
        · exact hmem n hn
      · intro n hn
        rcases List.mem_cons.1 hn with rfl | hn
        · exact ⟨heq, hgroup⟩
        · exact hgoal n hn
      · intro n hn p hp
        rcases List.mem_cons.1 hn with rfl | hn
        · rw [hparent, Option.some.injEq] at hp
          simp [hp]
        · exact List.mem_cons_of_mem _ (hclosed n hn p hp)

/-- `exception_inherits` decides the walk. -/
lemma exceptionInherits_iff (name : String) :
    vm.exceptionInherits name handlerName = true ↔ InheritsName vm handlerName name := by
  rw [Vm.exceptionInherits]
  constructor
  · intro h
    split_ifs at h with hgroup heq
    · obtain ⟨rfl, rfl⟩ := hgroup
      exact .exceptionGroup rfl
    · exact heq ▸ .refl
    · cases hp : vm.exceptionParentName name with
      | none => simp [hp, Vm.exceptionInheritsLoop] at h
      | some parent => exact .step hp (inheritsName_of_loop (hp ▸ h))
  · intro h
    split_ifs with hgroup heq
    · rfl
    · rfl
    cases h with
    | refl => exact absurd rfl heq
    | exceptionGroup h => exact absurd ⟨rfl, h⟩ hgroup
    | @step _ parent hparent h =>
      rw [hparent]
      refine loop_of_inheritsName ?_ List.nodup_nil ?_ (by simp) (by simp) h
      · simp [Vm.parentNames]
      · simpa using mem_parentNames hparent

end Walk

/-! ## The class hierarchy -/

/-- The built-in exception types the machine knows. -/
def builtinExceptionNames : List String :=
  "BaseException" :: "UnsupportedDigestmodError" :: builtinExceptionParents.map Prod.fst

/-- The bases of a class.  `ExceptionGroup` is the one built-in with two. -/
def Vm.directBases (vm : Vm) : ClassRef → List ClassRef
  | .object => []
  | .syntheticException name =>
    if name = "ExceptionGroup" then
      [.syntheticException "BaseExceptionGroup", .syntheticException "Exception"]
    else (Vm.initial.exceptionParentName name).toList.map .syntheticException
  | .builtin base => base.ancestors.take 1
  | .user id =>
    match vm.classes[id]? with
    | some data => data.bases
    | none => []

/-- `anc` is the class `cls` or one of its ancestors. -/
def Ancestor (vm : Vm) (anc cls : ClassRef) : Prop :=
  Relation.ReflTransGen (fun c base => base ∈ vm.directBases c) cls anc

def IsExceptionClass (vm : Vm) (cls : ClassRef) : Prop :=
  Ancestor vm (.syntheticException "BaseException") cls

/-- The classes that exist once `n` class statements have run. -/
def KnownClass (n : Nat) : ClassRef → Prop
  | .object => True
  | .syntheticException name => name ∈ builtinExceptionNames
  | .builtin _ => True
  | .user id => id < n

def Vm.className (vm : Vm) : ClassRef → String
  | .object => "object"
  | .syntheticException name => name
  | .builtin base => base.name
  | .user id => ((vm.classes[id]?).map (·.name)).getD ""

/-- How a program names a class: a built-in exception is an `ExceptionType`, a built-in type a
built-in function, every other class a class object. -/
def ClassRef.value : ClassRef → Value
  | .syntheticException name => .exceptionType name
  | .builtin base => .builtin (.ofType base)
  | cls => .class cls

/-- The machines that class statements over existing classes and assignments to `__bases__` lead
to. -/
inductive RunsClassActions : Vm → Prop
  | initial : RunsClassActions Vm.initial
  | classStatement {vm vm' : Vm} {name : String} {bases : List ClassRef} {cls : ClassRef}
      (h : RunsClassActions vm) (hbases : ∀ b ∈ bases, KnownClass vm.classes.length b)
      (hstep : vm.classStatement name (bases.map ClassRef.value) = .ok (vm', cls)) :
      RunsClassActions vm'
  | assignBases {vm vm' : Vm} {id : ℕ} {bases : List ClassRef} (h : RunsClassActions vm)
      (hid : id < vm.classes.length) (hbases : ∀ b ∈ bases, KnownClass vm.classes.length b)
      (hstep : vm.updateClassBasesAttr id (bases.map ClassRef.value) = .ok vm') :
      RunsClassActions vm'

/-- No two exception classes share a name. -/
def NamesIdentify (vm : Vm) : Prop :=
  ∀ c d, KnownClass vm.classes.length c → KnownClass vm.classes.length d →
    IsExceptionClass vm c → IsExceptionClass vm d → vm.className c = vm.className d → c = d

/-- `base` is the first of the bases of `cls` that is an exception class. -/
def FirstExceptionBase (vm : Vm) (cls base : ClassRef) : Prop :=
  ∃ before after, vm.directBases cls = before ++ base :: after ∧
    (∀ b ∈ before, ¬IsExceptionClass vm b) ∧ IsExceptionClass vm base

/-- The parent that is recorded for the name of an exception class is the name of its first
exception base. -/
def ParentsRecorded (vm : Vm) : Prop :=
  ∀ c, KnownClass vm.classes.length c → IsExceptionClass vm c →
    c ≠ .syntheticException "BaseException" →
    ∃ first, FirstExceptionBase vm c first ∧
      vm.exceptionParentName (vm.className c) = some (vm.className first)

/-- The base that is walked to: the first exception base, and for `ExceptionGroup` the second. -/
def WalkedBase (vm : Vm) (c base : ClassRef) : Prop :=
  FirstExceptionBase vm c base ∨
    c = .syntheticException "ExceptionGroup" ∧ base = .syntheticException "Exception"

/-- The exception bases of a user class lie on one line: each is reached over bases that are walked
to. -/
def BasesOnOneLine (vm : Vm) : Prop :=
  ∀ id base, id < vm.classes.length → base ∈ vm.directBases (.user id) →
    IsExceptionClass vm base → Relation.ReflTransGen (WalkedBase vm) (.user id) base

section Hierarchy

variable {vm : Vm} {c d anc : ClassRef}

lemma Ancestor.refl (vm : Vm) (c : ClassRef) : Ancestor vm c c :=
  Relation.ReflTransGen.refl

lemma Ancestor.of_base (hbase : d ∈ vm.directBases c) (h : Ancestor vm anc d) :
    Ancestor vm anc c :=
  Relation.ReflTransGen.head hbase h

lemma Ancestor.trans (hc : Ancestor vm d c) (hd : Ancestor vm anc d) : Ancestor vm anc c :=
  Relation.ReflTransGen.trans hc hd

lemma ancestor_cases (h : Ancestor vm anc c) :
    anc = c ∨ ∃ b ∈ vm.directBases c, Ancestor vm anc b := by
  rcases Relation.ReflTransGen.cases_head h with rfl | ⟨b, hb, h⟩
  · exact Or.inl rfl
  · exact Or.inr ⟨b, hb, h⟩

@[simp] lemma directBases_object : vm.directBases .object = [] := rfl

lemma ancestor_object (h : Ancestor vm anc .object) : anc = .object := by
  rcases ancestor_cases h with rfl | ⟨b, hb, -⟩
  · rfl
  · simp at hb

lemma not_isExceptionClass_object : ¬IsExceptionClass vm .object := by
  intro h
  simpa using ancestor_object h

lemma not_isExceptionClass_builtin (base : BuiltinType) :
    ¬IsExceptionClass vm (.builtin base) := by
  have hdict : ¬IsExceptionClass vm (.builtin .dict) := by
    intro h
    obtain h | ⟨b, hb, h⟩ := ancestor_cases h
    · cases h
    · rw [List.mem_singleton.1 hb] at h
      exact not_isExceptionClass_object h
  intro h
  obtain h | ⟨b, hb, h⟩ := ancestor_cases h
  · cases h
  have hcases : b = .object ∨ b = .builtin .dict := by
    have hbases : ∀ base : BuiltinType, b ∈ base.ancestors.take 1 →
        b = .object ∨ b = .builtin .dict := by
      intro base hb
      cases base <;> simp [BuiltinType.ancestors] at hb <;> simp [hb]
    exact hbases base hb
  rcases hcases with rfl | rfl
  · exact not_isExceptionClass_object h
  · exact hdict h

lemma FirstExceptionBase.mem {base : ClassRef} (h : FirstExceptionBase vm c base) :
    base ∈ vm.directBases c := by
  obtain ⟨before, after, heq, -, -⟩ := h
  rw [heq]
  simp

lemma FirstExceptionBase.isExceptionClass {base : ClassRef} (h : FirstExceptionBase vm c base) :
    IsExceptionClass vm base := by
  obtain ⟨before, after, -, -, hbase⟩ := h
  exact hbase

/-- There is at most one first exception base. -/
lemma FirstExceptionBase.unique {a b : ClassRef} (ha : FirstExceptionBase vm c a)
    (hb : FirstExceptionBase vm c b) : a = b := by
  classical
  have find {x : ClassRef} (hx : FirstExceptionBase vm c x) :
      (vm.directBases c).find? (fun y => decide (IsExceptionClass vm y)) = some x := by
    obtain ⟨before, after, heq, hbefore, hexc⟩ := hx
    rw [List.find?_eq_some_iff_append]
    exact ⟨by simpa using hexc, before, after, heq, by simpa using hbefore⟩
  exact Option.some.inj ((find ha).symm.trans (find hb))

lemma KnownClass.mono {m n : Nat} (hmn : m ≤ n) (h : KnownClass m c) : KnownClass n c := by
  cases c with
  | object => trivial
  | syntheticException name => exact h
  | builtin base => trivial
  | user id => exact lt_of_lt_of_le h hmn

end Hierarchy

/-! ## The built-in exceptions -/

lemma baseException_mem : "BaseException" ∈ builtinExceptionNames := by
  simp [builtinExceptionNames]

lemma exception_mem : "Exception" ∈ builtinExceptionNames := by
  simp [builtinExceptionNames, builtinExceptionParents]

lemma exceptionGroup_mem : "ExceptionGroup" ∈ builtinExceptionNames := by
  simp [builtinExceptionNames, builtinExceptionParents]

lemma baseExceptionGroup_mem : "BaseExceptionGroup" ∈ builtinExceptionNames := by
  simp [builtinExceptionNames, builtinExceptionParents]

lemma initial_parent_baseException : Vm.initial.exceptionParentName "BaseException" = none := by
  simp [Vm.exceptionParentName, Vm.initial, builtinExceptionParent, builtinExceptionParents,
    List.lookup_cons]

lemma initial_parent_exception :
    Vm.initial.exceptionParentName "Exception" = some "BaseException" := by
  simp [Vm.exceptionParentName, Vm.initial, builtinExceptionParent, builtinExceptionParents,
    List.lookup_cons]

lemma initial_parent_exceptionGroup :
    Vm.initial.exceptionParentName "ExceptionGroup" = some "BaseExceptionGroup" := by
  simp [Vm.exceptionParentName, Vm.initial, builtinExceptionParent, builtinExceptionParents,
    List.lookup_cons]

lemma grounded_builtinExceptionParents :
    ParentTable.Grounded ["BaseException"] builtinExceptionParents := by
  decide +kernel

/-- The parents of the built-in exceptions are built-in exceptions. -/
lemma builtin_parent_mem :
    ∀ name ∈ builtinExceptionNames, ∀ parent ∈ Vm.initial.exceptionParentName name,
      parent ∈ builtinExceptionNames := by
  intro name _ parent hparent
  obtain hrecorded | htable := List.mem_append.1 (mem_parentNames hparent)
  · have hall : ∀ parent ∈ Vm.initial.exceptionParents.map Prod.snd,
        parent ∈ builtinExceptionNames := by
      decide
    exact hall parent hrecorded
  · obtain hroot | hkey := List.mem_append.1 (grounded_builtinExceptionParents.parent_mem htable)
    · rw [List.mem_singleton.1 hroot]
      exact baseException_mem
    · exact List.mem_cons_of_mem _ (List.mem_cons_of_mem _ hkey)

/-- The walk arrives at `BaseException` from the parents that are recorded at start-up. -/
lemma inheritsName_recorded {parent : String}
    (h : parent ∈ Vm.initial.exceptionParents.map Prod.snd) :
    InheritsName Vm.initial "BaseException" parent := by
  have hexception : InheritsName Vm.initial "BaseException" "Exception" :=
    .step initial_parent_exception .refl
  have hvalueError : Vm.initial.exceptionParentName "ValueError" = some "Exception" := by
    decide
  have herror : Vm.initial.exceptionParentName "Error" = some "Exception" := by decide
  have hdatabaseError : Vm.initial.exceptionParentName "DatabaseError" = some "Error" := by
    decide
  have hcases : parent = "ValueError" ∨ parent = "DatabaseError" ∨ parent = "Error" := by
    simpa [Vm.initial, or_comm] using h
  obtain rfl | rfl | rfl := hcases
  · exact .step hvalueError hexception
  · exact .step hdatabaseError (.step herror hexception)
  · exact .step herror hexception

lemma builtin_inherits_baseException :
    ∀ name ∈ builtinExceptionNames,
      Vm.initial.exceptionInherits name "BaseException" = true := by
  intro name hname
  rw [exceptionInherits_iff]
  have hkeys : ∀ {name : String}, name ∈ ["BaseException"] ++ builtinExceptionParents.map Prod.fst →
      InheritsName Vm.initial "BaseException" name := by
    refine grounded_builtinExceptionParents.induction (fun root hroot => ?_)
      fun key parent hlookup hparent => ?_
    · rw [List.mem_singleton.1 hroot]
      exact .refl
    · cases hrecorded : Vm.initial.exceptionParents.lookup key with
      | none =>
        refine .step ?_ hparent
        rw [Vm.exceptionParentName, hrecorded]
        exact hlookup
      | some other =>
        refine .step ?_ (inheritsName_recorded (mem_map_snd_of_lookup hrecorded))
        rw [Vm.exceptionParentName, hrecorded]
  obtain rfl | hname := List.mem_cons.1 hname
  · exact .refl
  obtain rfl | hname := List.mem_cons.1 hname
  · exact .step rfl (inheritsName_recorded (List.mem_cons_self ..))
  · exact hkeys (List.mem_append_right _ hname)

/-! ## What a method resolution order contains -/

section Mro

/-- The entries of a stored order that are new are all taken, and nothing else is. -/
lemma mem_foldl_newEntries (mro : List ClassRef) (acc : List ClassRef × List ClassRef) :
    let r := mro.foldl
      (fun acc entry => if entry ∈ acc.2 then acc else (acc.1 ++ [entry], acc.2 ++ [entry])) acc
    (∀ x ∈ r.1, x ∈ acc.1 ∨ x ∈ mro) ∧ (∀ x ∈ acc.1, x ∈ r.1) ∧
      ∀ x ∈ mro, x ∉ acc.2 → x ∈ r.1 := by
  induction mro generalizing acc with
  | nil => simp
  | cons entry mro ih =>
    simp only [List.foldl_cons]
    by_cases hentry : entry ∈ acc.2
    · simp only [if_pos hentry]
      obtain ⟨h₁, h₂, h₃⟩ := ih acc
      refine ⟨fun x hx => (h₁ x hx).imp_right (List.mem_cons_of_mem _), h₂, fun x hx hacc => ?_⟩
      rcases List.mem_cons.1 hx with rfl | hx
      · exact absurd hentry hacc
      · exact h₃ x hx hacc
    · simp only [if_neg hentry]
      obtain ⟨h₁, h₂, h₃⟩ := ih (acc.1 ++ [entry], acc.2 ++ [entry])
      refine ⟨fun x hx => ?_, fun x hx => h₂ x (List.mem_append_left _ hx), fun x hx hacc => ?_⟩
      · rcases h₁ x hx with h | h
        · rcases List.mem_append.1 h with h | h
          · exact Or.inl h
          · exact Or.inr (by simp_all)
        · exact Or.inr (List.mem_cons_of_mem _ h)
      · by_cases hxe : x = entry
        · exact h₂ x (by simp [hxe])
        · refine h₃ x ((List.mem_cons.1 hx).resolve_left hxe) ?_
          simp [hacc, hxe]

variable {W : Vm} {S : ClassRef → Prop}

/-- The bases searched one after the other add only entries found under a base. -/
lemma mem_foldl_bases {collect : ClassRef → List ClassRef → List ClassRef × List ClassRef}
    (bases : List ClassRef) (acc : List ClassRef × List ClassRef) :
    let r := bases.foldl
      (fun acc base =>
        let (candidates, seen) := collect base acc.2
        (acc.1 ++ candidates.filter (· ∉ acc.1), seen)) acc
    (∀ x ∈ acc.1, x ∈ r.1) ∧
      ∀ x ∈ r.1, x ∈ acc.1 ∨ ∃ b ∈ bases, ∃ seen, x ∈ (collect b seen).1 := by
  induction bases generalizing acc with
  | nil => simp
  | cons b bases ih =>
    simp only [List.foldl_cons]
    obtain ⟨h₁, h₂⟩ := ih
      (acc.1 ++ (collect b acc.2).1.filter (· ∉ acc.1), (collect b acc.2).2)
    refine ⟨fun x hx => h₁ x (List.mem_append_left _ hx), fun x hx => ?_⟩
    rcases h₂ x hx with h | ⟨b', hb', seen, h⟩
    · rcases List.mem_append.1 h with h | h
      · exact Or.inl h
      · exact Or.inr ⟨b, by simp, acc.2, (List.mem_filter.1 h).1⟩
    · exact Or.inr ⟨b', List.mem_cons_of_mem _ hb', seen, h⟩

lemma self_mem_collectMroEntries {c : ClassRef} {data : ClassObject} (fuel : Nat)
    (hdata : W.classData c = some data) (hmro : data.mro ≠ [] → c ∈ data.mro) :
    c ∈ (W.collectMroEntries (fuel + 1) c []).1 := by
  rw [Vm.collectMroEntries]
  simp only [hdata]
  split_ifs with hne hseen
  · exact (mem_foldl_newEntries data.mro ([], [])).2.2 c (hmro hne) (by simp)
  · simp at hseen
  · exact (mem_foldl_bases data.bases ([c], [] ++ [c])).1 c (by simp)

/-- Moving `object` to the end changes no membership. -/
lemma mem_classMroEntries {c e : ClassRef} :
    e ∈ W.classMroEntries c ↔ e ∈ (W.collectMroEntries (W.classes.length + 1) c []).1 := by
  rw [Vm.classMroEntries]
  generalize (W.collectMroEntries (W.classes.length + 1) c []).1 = entries
  split
  next o ho =>
    have hmem := List.mem_of_find?_eq_some ho
    by_cases heo : e = o
    · simp [heo, hmem]
    · simp [heo, List.mem_erase_of_ne heo]
  next => rfl

lemma self_mem_buildClassMro {c : ClassRef} {bases mro : List ClassRef}
    (h : W.buildClassMro c bases = some mro) : c ∈ mro := by
  rw [Vm.buildClassMro] at h
  split_ifs at h
  · rw [← Option.some.inj h]
    exact List.mem_singleton_self _
  · obtain ⟨merged, -, rfl⟩ := Option.map_eq_some_iff.1 h
    exact List.mem_cons_self

/-- A class whose own name inherits from `BaseException` is recognized. -/
lemma classIsExceptionClass_of_self {c : ClassRef} {data : ClassObject}
    (hdata : W.classData c = some data) (hmro : data.mro ≠ [] → c ∈ data.mro)
    (h : InheritsName W "BaseException" data.name) : W.classIsExceptionClass c = true := by
  rw [Vm.classIsExceptionClass, List.any_eq_true]
  refine ⟨c, mem_classMroEntries.2 (self_mem_collectMroEntries _ hdata hmro), ?_⟩
  rw [hdata]
  exact (exceptionInherits_iff _).2 h

end Mro

end Pyrs
