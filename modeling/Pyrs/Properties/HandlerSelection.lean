import Pyrs.Library.Results
import Pyrs.Properties.ClassHierarchy

/-!
# Which handler takes an exception

A handler for a class should take exactly the exceptions of that class and of the classes below
it.  The machine compares names instead: a raised exception carries the name of its class, and
`exception_parents` maps a name to the name of one parent.  The walk over the names is the hierarchy
where no two exception classes share a name, the parent recorded for each of them is its first
exception base, and its other exception bases are reached from there.

The class statements record a parent when a class is made.  An assignment to `__bases__` records
none, and a class of the same name records another one, so the condition is about the state of the
tables and not about the way that led there.
-/

namespace Pyrs

/-! ## Adding one class -/

/-- `W` has the classes of `vm` and one more. -/
def AddsClass (vm W : Vm) (data : ClassObject) : Prop :=
  W.classes = vm.classes ++ [data]

section AddsClass

variable {vm W : Vm} {data : ClassObject} {c : ClassRef}

lemma AddsClass.length (h : AddsClass vm W data) : W.classes.length = vm.classes.length + 1 := by
  rw [h]
  simp

lemma AddsClass.getElem?_old (h : AddsClass vm W data) {id : Nat} (hid : id < vm.classes.length) :
    W.classes[id]? = vm.classes[id]? := by
  rw [h, List.getElem?_append_left hid]

lemma AddsClass.getElem?_new (h : AddsClass vm W data) :
    W.classes[vm.classes.length]? = some data := by
  rw [h]
  simp

/-- The classes of a larger machine, by their reference. -/
lemma AddsClass.getElem?_cases {data' : ClassObject} {id : ℕ} (h : AddsClass vm W data)
    (hdata : W.classes[id]? = some data') :
    vm.classes[id]? = some data' ∨ id = vm.classes.length ∧ data' = data := by
  have hid : id < vm.classes.length + 1 := h.length ▸ (List.getElem?_eq_some_iff.1 hdata).1
  rcases Nat.lt_succ_iff_lt_or_eq.1 hid with hid | rfl
  · exact .inl (h.getElem?_old hid ▸ hdata)
  · exact .inr ⟨rfl, Option.some.inj (hdata.symm.trans h.getElem?_new)⟩

lemma AddsClass.directBases_new (h : AddsClass vm W data) :
    W.directBases (.user vm.classes.length) = data.bases := by
  simp only [Vm.directBases, h.getElem?_new]

lemma AddsClass.className_new (h : AddsClass vm W data) :
    W.className (.user vm.classes.length) = data.name := by
  simp only [Vm.className, h.getElem?_new, Option.map_some, Option.getD_some]

end AddsClass

/-! ## Class statements and assignments -/

section Step

variable {vm W : Vm} {c : ClassRef} {name : String} {bases : List ClassRef}

lemma recordExceptionParentForClass_classes (W : Vm) (c : ClassRef) :
    (W.recordExceptionParentForClass c).classes = W.classes := by
  rw [Vm.recordExceptionParentForClass]
  repeat' (first | rfl | split)

/-- No parent is recorded for `BaseException`. -/
lemma recordExceptionParentForClass_baseException (W : Vm) (c : ClassRef) :
    (W.recordExceptionParentForClass c).exceptionParentName "BaseException" =
      W.exceptionParentName "BaseException" := by
  rw [Vm.recordExceptionParentForClass]
  split
  · rfl
  · split_ifs with hname
    · rfl
    · split
      · rfl
      · split
        · rfl
        · next data _ _ _ _ baseData _ =>
          rw [Vm.exceptionParentName, List.lookup_cons, beq_eq_false_iff_ne.2 (Ne.symm hname)]
          rfl

/-- A class statement allocates one class and records its parent twice. -/
lemma classValueFromModule_eq (vm : Vm) (name : String) (bases : List ClassRef) :
    ∃ mro, (({ vm with classes := vm.classes ++
        [⟨name, if bases = [] then [.object] else bases, []⟩] } : Vm).buildClassMro
        (.user vm.classes.length) (if bases = [] then [.object] else bases)).getD [] = mro ∧
      (vm.classValueFromModule name bases).1 =
        (({ vm with classes := vm.classes ++
          [⟨name, if bases = [] then [.object] else bases, mro⟩] } :
          Vm).recordExceptionParentForClass
          (.user vm.classes.length)).recordExceptionParentForClass (.user vm.classes.length) :=
  ⟨_, rfl, rfl⟩

lemma mapM_classFromBaseValue (bases : List ClassRef) :
    (bases.map ClassRef.value).mapM classFromBaseValue = .ok bases := by
  rw [List.mapM_map]
  refine (Results.mapM_eq_pure (g := id) fun b _ => ?_).trans (by rw [List.map_id]; rfl)
  cases b <;> rfl

lemma ensureUniqueBaseClasses_of_nodup {vm : Vm} {bases : List ClassRef} (h : bases.Nodup) :
    vm.ensureUniqueBaseClasses bases = .ok () := by
  induction bases with
  | nil => rfl
  | cons base bases ih =>
    rw [Vm.ensureUniqueBaseClasses, if_neg (List.nodup_cons.1 h).1, ih (List.nodup_cons.1 h).2]

lemma exists_ensureUniqueBaseClasses_eq_error (vm : Vm) {bases : List ClassRef}
    (h : ¬ bases.Nodup) : ∃ message, vm.ensureUniqueBaseClasses bases = .error message := by
  induction bases with
  | nil => exact absurd List.nodup_nil h
  | cons base bases ih =>
    rw [Vm.ensureUniqueBaseClasses]
    by_cases hbase : base ∈ bases
    · exact ⟨_, if_pos hbase⟩
    · rw [if_neg hbase]
      exact ih fun hnodup => h (List.nodup_cons.2 ⟨hbase, hnodup⟩)

lemma classStatement_eq (vm : Vm) (name : String) (bases : List ClassRef) (hbases : bases.Nodup) :
    vm.classStatement name (bases.map ClassRef.value) =
      .ok (vm.classValueFromModule name bases) := by
  rw [Vm.classStatement, mapM_classFromBaseValue]
  change (vm.ensureUniqueBaseClasses bases >>= fun _ => _) = _
  rw [ensureUniqueBaseClasses_of_nodup hbases]
  rfl

lemma classStatement_eq_ok {vm : Vm} {name : String} {bases : List ClassRef}
    {result : Vm × ClassRef} (h : vm.classStatement name (bases.map ClassRef.value) = .ok result) :
    bases.Nodup ∧ vm.classValueFromModule name bases = result := by
  by_cases hbases : bases.Nodup
  · rw [classStatement_eq vm name bases hbases] at h
    exact ⟨hbases, Except.ok.inj h⟩
  · obtain ⟨message, hmessage⟩ := exists_ensureUniqueBaseClasses_eq_error vm hbases
    rw [Vm.classStatement, mapM_classFromBaseValue] at h
    change (vm.ensureUniqueBaseClasses bases >>= fun _ => _) = _ at h
    rw [hmessage] at h
    cases h

lemma updateClassBasesAttr_eq_ok {id : ℕ} {vm' : Vm}
    (h : vm.updateClassBasesAttr id (bases.map ClassRef.value) = .ok vm') :
    bases.Nodup ∧ vm' = { vm with
      classes := vm.classes.modify id fun data =>
        { data with
          bases := bases
          mro := if bases = [] then [.user id]
            else (vm.buildClassMro (.user id) bases).getD (.user id :: bases) } } := by
  rw [Vm.updateClassBasesAttr, mapM_classFromBaseValue] at h
  change (vm.ensureUniqueBaseClasses bases >>= fun _ => _) = _ at h
  by_cases hbases : bases.Nodup
  · rw [ensureUniqueBaseClasses_of_nodup hbases] at h
    exact ⟨hbases, (Except.ok.inj h).symm⟩
  · obtain ⟨message, hmessage⟩ := exists_ensureUniqueBaseClasses_eq_error vm hbases
    rw [hmessage] at h
    cases h

/-- What holds of every machine in a run: bases exist, a stored order holds the class itself, and
nothing is above `BaseException`. -/
structure Vm.Rooted (vm : Vm) : Prop where
  basesKnown : ∀ (id : ℕ) (data : ClassObject), vm.classes[id]? = some data →
    ∀ b ∈ data.bases, KnownClass vm.classes.length b
  mro_self : ∀ (id : ℕ) (data : ClassObject), vm.classes[id]? = some data →
    data.mro ≠ [] → .user id ∈ data.mro
  parent_baseException : vm.exceptionParentName "BaseException" = none

lemma rooted_initial : Vm.initial.Rooted where
  basesKnown _ _ h := by cases h
  mro_self _ _ h := by cases h
  parent_baseException := initial_parent_baseException

lemma Vm.Rooted.classValueFromModule (h : vm.Rooted)
    (hbases : ∀ b ∈ bases, KnownClass vm.classes.length b) :
    (vm.classValueFromModule name bases).1.Rooted := by
  obtain ⟨mro, hmro, hfinal⟩ := classValueFromModule_eq vm name bases
  have hadds : AddsClass vm (vm.classValueFromModule name bases).1
      ⟨name, if bases = [] then [.object] else bases, mro⟩ := by
    rw [AddsClass, hfinal, recordExceptionParentForClass_classes,
      recordExceptionParentForClass_classes]
  have hmono : ∀ {c}, KnownClass vm.classes.length c →
      KnownClass (vm.classValueFromModule name bases).1.classes.length c := fun hc =>
    hc.mono (by rw [hadds.length]; omega)
  refine ⟨fun id data hdata b hb => ?_, fun id data hdata hne => ?_, ?_⟩
  · rcases hadds.getElem?_cases hdata with hdata | ⟨-, rfl⟩
    · exact hmono (h.basesKnown id data hdata b hb)
    · dsimp only at hb
      split_ifs at hb
      · rw [List.mem_singleton.1 hb]
        trivial
      · exact hmono (hbases b hb)
  · rcases hadds.getElem?_cases hdata with hdata | ⟨rfl, rfl⟩
    · exact h.mro_self id data hdata hne
    · dsimp only at hne ⊢
      cases hbuild : Vm.buildClassMro { vm with classes := vm.classes ++
          [⟨name, if bases = [] then [.object] else bases, []⟩] } (.user vm.classes.length)
          (if bases = [] then [.object] else bases) with
      | none =>
        rw [hbuild] at hmro
        exact absurd hmro.symm hne
      | some order =>
        rw [hbuild] at hmro
        exact hmro ▸ self_mem_buildClassMro hbuild
  · rw [hfinal, recordExceptionParentForClass_baseException,
      recordExceptionParentForClass_baseException]
    exact h.parent_baseException

lemma Vm.Rooted.updateClassBasesAttr (h : vm.Rooted) {id : ℕ} {vm' : Vm}
    (hbases : ∀ b ∈ bases, KnownClass vm.classes.length b)
    (hstep : vm.updateClassBasesAttr id (bases.map ClassRef.value) = .ok vm') : vm'.Rooted := by
  obtain ⟨-, rfl⟩ := updateClassBasesAttr_eq_ok hstep
  set update : ClassObject → ClassObject := fun data =>
    { data with
      bases := bases
      mro := if bases = [] then [.user id]
        else (vm.buildClassMro (.user id) bases).getD (.user id :: bases) } with hupdate
  have hcases : ∀ (id' : ℕ) (data : ClassObject), (vm.classes.modify id update)[id']? = some data →
      vm.classes[id']? = some data ∨ id' = id ∧ ∃ old, data = update old := by
    intro id' data hdata
    by_cases hid : id = id'
    · subst hid
      rw [List.getElem?_modify_eq] at hdata
      obtain ⟨old, -, rfl⟩ := Option.map_eq_some_iff.1 hdata
      exact .inr ⟨rfl, old, rfl⟩
    · exact .inl (by simpa [List.getElem?_modify, hid] using hdata)
  refine ⟨fun id' data hdata b hb => ?_, fun id' data hdata hne => ?_, h.parent_baseException⟩
  · rw [List.length_modify]
    obtain hdata | ⟨-, old, rfl⟩ := hcases id' data hdata
    · exact h.basesKnown id' data hdata b hb
    · exact hbases b hb
  · obtain hdata | ⟨rfl, old, rfl⟩ := hcases id' data hdata
    · exact h.mro_self id' data hdata hne
    · rw [hupdate]
      dsimp only
      split_ifs
      · exact List.mem_singleton_self _
      · cases hbuild : vm.buildClassMro (.user id') bases with
        | none => exact List.mem_cons_self
        | some order => exact self_mem_buildClassMro hbuild

lemma RunsClassActions.rooted (h : RunsClassActions vm) : vm.Rooted := by
  induction h with
  | initial => exact rooted_initial
  | classStatement _ hbases hstep ih =>
    obtain rfl := congrArg Prod.fst (classStatement_eq_ok hstep).2
    exact ih.classValueFromModule hbases
  | assignBases _ _ hbases hstep ih => exact ih.updateClassBasesAttr hbases hstep

end Step

/-! ## The walk and the hierarchy -/

section Walk

variable {vm : Vm} {c d b : ClassRef} {handlerName : String}

lemma KnownClass.directBases (hbases : vm.Rooted) (hc : KnownClass vm.classes.length c)
    (hb : b ∈ vm.directBases c) : KnownClass vm.classes.length b := by
  cases c with
  | object => simp at hb
  | syntheticException name =>
    rw [Vm.directBases] at hb
    split_ifs at hb
    · rcases List.mem_pair.1 hb with rfl | rfl
      · exact baseExceptionGroup_mem
      · exact exception_mem
    · obtain ⟨parent, hparent, rfl⟩ := List.mem_map.1 hb
      exact builtin_parent_mem name hc parent (by simpa using hparent)
  | builtin base => cases base <;> rw [List.mem_singleton.1 hb] <;> trivial
  | user id =>
    rw [Vm.directBases] at hb
    split at hb
    next data hdata => exact hbases.basesKnown id data hdata b hb
    next => simp at hb

lemma classData_name (hc : KnownClass vm.classes.length c) {data : ClassObject}
    (hdata : vm.classData c = some data) : data.name = vm.className c := by
  cases c with
  | object => rw [← Option.some.inj hdata]; rfl
  | syntheticException name => rw [← Option.some.inj hdata]; rfl
  | builtin base => rw [← Option.some.inj hdata]; rfl
  | user id =>
    rw [Vm.classData] at hdata
    simp only [Vm.className, hdata, Option.map_some, Option.getD_some]

lemma exists_classData (hc : KnownClass vm.classes.length c) :
    ∃ data, vm.classData c = some data := by
  cases c with
  | object => exact ⟨_, rfl⟩
  | syntheticException name => exact ⟨_, rfl⟩
  | builtin base => exact ⟨_, rfl⟩
  | user id => exact ⟨_, List.getElem?_eq_getElem hc⟩

/-- Every built-in exception type is an exception class. -/
lemma isExceptionClass_syntheticException (vm : Vm) {name : String}
    (h : name ∈ builtinExceptionNames) : IsExceptionClass vm (.syntheticException name) := by
  have hwalk := (exceptionInherits_iff name).1 (builtin_inherits_baseException name h)
  clear h
  induction hwalk with
  | refl => exact Ancestor.refl vm _
  | exceptionGroup h => simp at h
  | @step name parent hparent _ ih =>
    by_cases hgroup : name = "ExceptionGroup"
    · subst hgroup
      have hp : parent = "BaseExceptionGroup" :=
        Option.some.inj (hparent.symm.trans initial_parent_exceptionGroup)
      exact Ancestor.of_base (d := .syntheticException parent) (by simp [Vm.directBases, hp]) ih
    · exact Ancestor.of_base (d := .syntheticException parent)
        (by simp [Vm.directBases, hgroup, hparent]) ih

lemma firstExceptionBase_syntheticException {name parent : String}
    (hname : name ∈ builtinExceptionNames)
    (hparent : Vm.initial.exceptionParentName name = some parent) :
    FirstExceptionBase vm (.syntheticException name) (.syntheticException parent) := by
  have hexc := isExceptionClass_syntheticException vm
    (builtin_parent_mem name hname parent hparent)
  by_cases hgroup : name = "ExceptionGroup"
  · subst hgroup
    have hp : parent = "BaseExceptionGroup" :=
      Option.some.inj (hparent.symm.trans initial_parent_exceptionGroup)
    subst hp
    exact ⟨[], [.syntheticException "Exception"], rfl, by simp, hexc⟩
  · exact ⟨[], [], by simp [Vm.directBases, hgroup, hparent], by simp, hexc⟩

/-- Nothing is a base of `BaseException`. -/
lemma FirstExceptionBase.ne_baseException (h : FirstExceptionBase vm c b) :
    c ≠ .syntheticException "BaseException" := by
  rintro rfl
  have hmem := h.mem
  rw [Vm.directBases, if_neg (by decide), initial_parent_baseException] at hmem
  cases hmem

/-- The parents of the built-in exceptions are still those of the start-up. -/
lemma ParentsRecorded.builtin (h : ParentsRecorded vm) {name parent : String}
    (hname : name ∈ builtinExceptionNames)
    (hparent : Vm.initial.exceptionParentName name = some parent) :
    vm.exceptionParentName name = some parent := by
  have hfirst : FirstExceptionBase vm (.syntheticException name) (.syntheticException parent) :=
    firstExceptionBase_syntheticException hname hparent
  have hexc := isExceptionClass_syntheticException vm hname
  obtain ⟨b, hb, hrecorded⟩ := h (.syntheticException name) hname hexc hfirst.ne_baseException
  obtain rfl := hb.unique hfirst
  exact hrecorded

/-- The walk from `ExceptionGroup` arrives where the walk from its second base does: above
`Exception` there is only `BaseException`, which the first base reaches as well. -/
lemma ParentsRecorded.inheritsName_exceptionGroup (h : ParentsRecorded vm) (hroot : vm.Rooted)
    (hwalk : InheritsName vm handlerName "Exception") :
    InheritsName vm handlerName "ExceptionGroup" := by
  generalize hn : "Exception" = n at hwalk
  cases hwalk with
  | refl => exact hn ▸ .exceptionGroup rfl
  | exceptionGroup => simp at hn
  | @step _ parent hstep hwalk =>
    subst hn
    obtain rfl : parent = "BaseException" :=
      Option.some.inj (hstep.symm.trans (h.builtin exception_mem initial_parent_exception))
    generalize hn : "BaseException" = n at hwalk
    cases hwalk with
    | refl =>
      subst hn
      have hgroup : Vm.initial.exceptionParentName "BaseExceptionGroup" = some "BaseException" := by
        decide
      exact .step (h.builtin exceptionGroup_mem initial_parent_exceptionGroup)
        (.step (h.builtin baseExceptionGroup_mem hgroup) .refl)
    | exceptionGroup => simp at hn
    | step hstep _ => simp [← hn, hroot.parent_baseException] at hstep

/-- The walk takes the step to a base that is walked to. -/
lemma ParentsRecorded.inheritsName_of_walkedBase (h : ParentsRecorded vm) (hroot : vm.Rooted)
    (hc : KnownClass vm.classes.length c) (hbase : WalkedBase vm c b)
    (hwalk : InheritsName vm handlerName (vm.className b)) :
    InheritsName vm handlerName (vm.className c) := by
  rcases hbase with hfirst | ⟨rfl, rfl⟩
  · have hexc : IsExceptionClass vm c := Ancestor.of_base hfirst.mem hfirst.isExceptionClass
    obtain ⟨b', hb', hrecorded⟩ := h c hc hexc hfirst.ne_baseException
    obtain rfl := hb'.unique hfirst
    exact .step hrecorded hwalk
  · exact h.inheritsName_exceptionGroup hroot hwalk

lemma WalkedBase.mem (h : WalkedBase vm c b) : b ∈ vm.directBases c := by
  rcases h with hfirst | ⟨rfl, rfl⟩
  · exact hfirst.mem
  · simp [Vm.directBases]

/-- Every exception base is reached over bases that are walked to. -/
lemma BasesOnOneLine.reaches (hline : BasesOnOneLine vm) (hc : KnownClass vm.classes.length c)
    (hb : b ∈ vm.directBases c) (hexc : IsExceptionClass vm b) :
    Relation.ReflTransGen (WalkedBase vm) c b := by
  cases c with
  | object => simp at hb
  | builtin base => exact absurd (Ancestor.of_base hb hexc) (not_isExceptionClass_builtin base)
  | user id => exact hline id b hc hb hexc
  | syntheticException name =>
    by_cases hgroup : name = "ExceptionGroup"
    · subst hgroup
      rw [Vm.directBases, if_pos rfl] at hb
      rcases List.mem_pair.1 hb with rfl | rfl
      · exact .single (.inl
          (firstExceptionBase_syntheticException exceptionGroup_mem initial_parent_exceptionGroup))
      · exact .single (.inr ⟨rfl, rfl⟩)
    · rw [Vm.directBases, if_neg hgroup] at hb
      obtain ⟨parent, hparent, rfl⟩ := List.mem_map.1 hb
      exact .single (.inl (firstExceptionBase_syntheticException hc (by simpa using hparent)))

/-- The walk finds every ancestor. -/
lemma ParentsRecorded.inheritsName_of_ancestor (h : ParentsRecorded vm) (hroot : vm.Rooted)
    (hline : BasesOnOneLine vm) (hd : KnownClass vm.classes.length d) (hexc : IsExceptionClass vm c)
    (hanc : Ancestor vm c d) : InheritsName vm (vm.className c) (vm.className d) := by
  have hchain : ∀ {b d}, KnownClass vm.classes.length d →
      Relation.ReflTransGen (WalkedBase vm) d b →
      InheritsName vm (vm.className c) (vm.className b) →
      InheritsName vm (vm.className c) (vm.className d) := by
    intro b d hd hreach hwalk
    induction hreach using Relation.ReflTransGen.head_induction_on with
    | refl => exact hwalk
    | head hbase _ ih =>
      exact h.inheritsName_of_walkedBase hroot hd hbase (ih (hd.directBases hroot hbase.mem))
  induction hanc using Relation.ReflTransGen.head_induction_on with
  | refl => exact .refl
  | head hb hanc ih =>
    exact hchain hd (hline.reaches hd hb (Ancestor.trans hanc hexc)) (ih (hd.directBases hroot hb))

/-- The walk never leaves the hierarchy: what it inherits from is an ancestor. -/
lemma ParentsRecorded.ancestor_of_inheritsName (h : ParentsRecorded vm) (hroot : vm.Rooted)
    (hnames : NamesIdentify vm) (hc : KnownClass vm.classes.length c) (hexc : IsExceptionClass vm c)
    (hd : KnownClass vm.classes.length d) (hdexc : IsExceptionClass vm d)
    (hwalk : InheritsName vm (vm.className c) (vm.className d)) : Ancestor vm c d := by
  generalize hn : vm.className d = n at hwalk
  induction hwalk generalizing d with
  | refl =>
    rw [hnames d c hd hc hdexc hexc hn]
    exact Ancestor.refl vm c
  | exceptionGroup hname =>
    obtain rfl := hnames d (.syntheticException "ExceptionGroup") hd exceptionGroup_mem hdexc
      (isExceptionClass_syntheticException vm exceptionGroup_mem) hn
    obtain rfl := hnames c (.syntheticException "Exception") hc exception_mem hexc
      (isExceptionClass_syntheticException vm exception_mem) hname
    exact Ancestor.of_base (by simp [Vm.directBases]) (Ancestor.refl vm _)
  | @step name parent hparent _ ih =>
    subst hn
    by_cases hbase : d = .syntheticException "BaseException"
    · subst hbase
      exact absurd hparent (by simp [Vm.className, hroot.parent_baseException])
    obtain ⟨b, hb, hname⟩ := h d hd hdexc hbase
    have hparent' : vm.className b = parent := Option.some.inj (hname.symm.trans hparent)
    exact Ancestor.of_base hb.mem (ih (hd.directBases hroot hb.mem) hb.isExceptionClass hparent')

/-- The machine recognizes the exception classes. -/
lemma ParentsRecorded.classIsExceptionClass (h : ParentsRecorded vm) (hroot : vm.Rooted)
    (hline : BasesOnOneLine vm) (hc : KnownClass vm.classes.length c)
    (hexc : IsExceptionClass vm c) : vm.classIsExceptionClass c = true := by
  obtain ⟨data, hdata⟩ := exists_classData hc
  refine classIsExceptionClass_of_self hdata (fun hmro => ?_) ?_
  · cases c with
    | object => exact absurd hexc not_isExceptionClass_object
    | syntheticException name =>
      rw [← Option.some.inj hdata]
      simp
    | builtin base => exact absurd hexc (not_isExceptionClass_builtin base)
    | user id => exact hroot.mro_self id data hdata hmro
  · rw [classData_name hc hdata]
    exact h.inheritsName_of_ancestor hroot hline hc (Ancestor.refl vm _) hexc

end Walk

/-! ## When the selection is right -/

/-- **Handler selection.**  For every exception of an exception class `d` and every exception class
`c`, `exception_matches` answers whether `c` is `d` or an ancestor of `d`, and for a tuple of
classes whether this holds of a member. -/
def HandlerSelection (vm : Vm) : Prop :=
  ∀ active exc d, KnownClass vm.classes.length d → IsExceptionClass vm d →
    exc.name = vm.className d →
    (∀ c, KnownClass vm.classes.length c → IsExceptionClass vm c →
      ∃ matched, vm.exceptionMatches active (.exception exc) c.value = .ok matched ∧
        (matched = true ↔ Ancestor vm c d)) ∧
    ∀ handlers : List ClassRef,
      (∀ c ∈ handlers, KnownClass vm.classes.length c ∧ IsExceptionClass vm c) →
      ∃ matched, vm.exceptionMatches active (.exception exc)
          (.tuple (handlers.map ClassRef.value)) = .ok matched ∧
        (matched = true ↔ ∃ c ∈ handlers, Ancestor vm c d)

section Selection

variable {vm : Vm} {active : Option Value} {exc : ExceptionObject} {c : ClassRef}

/-- Under an exception class handler the answer is the walk over the names. -/
lemma exceptionMatches_value (hc : KnownClass vm.classes.length c) (hexc : IsExceptionClass vm c)
    (hrec : vm.classIsExceptionClass c = true) :
    vm.exceptionMatches active (.exception exc) c.value =
      .ok (vm.exceptionInherits exc.name (vm.className c)) := by
  cases c with
  | object => simp [ClassRef.value, Vm.exceptionMatches, Vm.matchedExceptionName, Vm.nameMatches,
      hrec, Vm.classData, Vm.className, bind, Except.bind]
  | syntheticException name => rfl
  | builtin base => exact absurd hexc (not_isExceptionClass_builtin base)
  | user id =>
    obtain ⟨data, hdata⟩ := exists_classData hc
    rw [← classData_name hc hdata]
    simp [ClassRef.value, Vm.exceptionMatches, Vm.matchedExceptionName, Vm.nameMatches, hrec,
      hdata, bind, Except.bind]

/-- A tuple of handlers matches when a member does. -/
lemma exceptionMatches_tuple {p : ClassRef → Prop} {handlers : List ClassRef}
    (h : ∀ c ∈ handlers, ∃ matched,
      vm.exceptionMatches active (.exception exc) c.value = .ok matched ∧ (matched = true ↔ p c)) :
    ∃ matched, vm.exceptionMatches active (.exception exc)
        (.tuple (handlers.map ClassRef.value)) = .ok matched ∧
      (matched = true ↔ ∃ c ∈ handlers, p c) := by
  induction handlers with
  | nil => exact ⟨false, rfl, by simp⟩
  | cons c handlers ih =>
    obtain ⟨m, hm, hmp⟩ := h c (by simp)
    obtain ⟨ms, hms, hmsp⟩ := ih fun c hc => h c (List.mem_cons_of_mem _ hc)
    have hm' : vm.nameMatches exc.name c.value = .ok m := hm
    have hms' : vm.nameMatchesAny exc.name (handlers.map ClassRef.value) = .ok ms := hms
    show ∃ matched, vm.nameMatchesAny exc.name (c.value :: handlers.map ClassRef.value) =
      .ok matched ∧ _
    cases m with
    | true =>
      refine ⟨true, ?_, by simp [hmp.1 rfl]⟩
      rw [Vm.nameMatchesAny, hm']
      rfl
    | false =>
      refine ⟨ms, ?_, ?_⟩
      · rw [Vm.nameMatchesAny, hm', ← hms']
        rfl
      · simp only [hmsp, List.mem_cons, exists_eq_or_imp]
        exact (or_iff_right fun h => absurd (hmp.2 h) (by simp)).symm

/-- **Handler selection is right when the names tell the hierarchy.**  In every run of class
statements and assignments to `__bases__`, the machine selects the right handlers where no two
exception classes share a name, the recorded parent of each is its first exception base, and every
other exception base is reached from there. -/
theorem handlerSelection_of_namesIdentify (hrun : RunsClassActions vm) (hnames : NamesIdentify vm)
    (hparents : ParentsRecorded vm) (hline : BasesOnOneLine vm) : HandlerSelection vm := by
  have hroot := hrun.rooted
  intro active exc d hd hdexc hname
  have hsingle : ∀ c, KnownClass vm.classes.length c → IsExceptionClass vm c →
      ∃ matched, vm.exceptionMatches active (.exception exc) c.value = .ok matched ∧
        (matched = true ↔ Ancestor vm c d) := by
    intro c hc hexc
    have hrec := hparents.classIsExceptionClass hroot hline hc hexc
    refine ⟨_, exceptionMatches_value hc hexc hrec, ?_⟩
    rw [exceptionInherits_iff, hname]
    exact ⟨hparents.ancestor_of_inheritsName hroot hnames hc hexc hd hdexc,
      hparents.inheritsName_of_ancestor hroot hline hd hexc⟩
  exact ⟨hsingle, fun handlers hhandlers =>
    exceptionMatches_tuple fun c hc => hsingle c (hhandlers c hc).1 (hhandlers c hc).2⟩

end Selection

/-! ## One class on a line, one class with two bases -/

/-- The machine after `class AppError(ValueError): ...` and `class Error: ...`, which is called like
an exception class and is none. -/
def appErrorVm : Vm :=
  let vm := (Vm.initial.classValueFromModule "AppError" [.syntheticException "ValueError"]).1
  (vm.classValueFromModule "Error" []).1

lemma runsClassActions_appErrorVm : RunsClassActions appErrorVm := by
  refine .classStatement (.classStatement .initial (fun b hb => ?_) (classStatement_eq Vm.initial
    "AppError" [.syntheticException "ValueError"] (by decide))) (fun b hb => ?_)
    (classStatement_eq _ "Error" [] (by decide))
  · rw [List.mem_singleton.1 hb]
    exact show "ValueError" ∈ builtinExceptionNames by decide
  · cases hb

lemma exists_initial_parent {name : String} (hname : name ∈ builtinExceptionNames)
    (hne : name ≠ "BaseException") :
    ∃ parent, Vm.initial.exceptionParentName name = some parent := by
  have hwalk := (exceptionInherits_iff name).1 (builtin_inherits_baseException name hname)
  cases hwalk with
  | refl => exact absurd rfl hne
  | exceptionGroup h => simp at h
  | step hparent _ => exact ⟨_, hparent⟩

theorem handlerSelection_appErrorVm : HandlerSelection appErrorVm := by
  have hlen : appErrorVm.classes.length = 2 := by decide
  have hvalueError : "ValueError" ∈ builtinExceptionNames := by decide
  have hfresh : "AppError" ∉ builtinExceptionNames := by decide
  have hbases : appErrorVm.directBases (.user 0) = [.syntheticException "ValueError"] := by
    decide
  have hname : appErrorVm.className (.user 0) = "AppError" := by decide
  have hplain : ¬IsExceptionClass appErrorVm (.user 1) := by
    intro h
    obtain h | ⟨b, hb, h⟩ := ancestor_cases h
    · cases h
    · rw [show appErrorVm.directBases (.user 1) = [.object] by decide,
        List.mem_singleton] at hb
      exact not_isExceptionClass_object (hb ▸ h)
  have hfirst : FirstExceptionBase appErrorVm (.user 0) (.syntheticException "ValueError") :=
    ⟨[], [], hbases, by simp, isExceptionClass_syntheticException _ hvalueError⟩
  have hcases : ∀ c, KnownClass appErrorVm.classes.length c → IsExceptionClass appErrorVm c →
      c = .user 0 ∨ ∃ name ∈ builtinExceptionNames, c = .syntheticException name := by
    intro c hc hexc
    rw [hlen] at hc
    cases c with
    | object => exact absurd hexc not_isExceptionClass_object
    | builtin base => exact absurd hexc (not_isExceptionClass_builtin base)
    | syntheticException name => exact .inr ⟨name, hc, rfl⟩
    | user id =>
      have hid : id = 0 ∨ id = 1 := by
        have hid : id < 2 := hc
        omega
      rcases hid with rfl | rfl
      · exact .inl rfl
      · exact absurd hexc hplain
  refine handlerSelection_of_namesIdentify runsClassActions_appErrorVm ?_ ?_ ?_
  · intro c d hc hd hexc hdexc h
    rcases hcases c hc hexc with rfl | ⟨name, hname', rfl⟩ <;>
      rcases hcases d hd hdexc with rfl | ⟨other, hother, rfl⟩
    · rfl
    · exact absurd (hname.symm.trans h ▸ hother) hfresh
    · exact absurd ((show name = "AppError" from h.trans hname) ▸ hname') hfresh
    · exact congrArg _ h
  · intro c hc hexc hne
    rcases hcases c hc hexc with rfl | ⟨name, hname', rfl⟩
    · exact ⟨_, hfirst, by decide⟩
    · obtain ⟨parent, hparent⟩ := exists_initial_parent hname' fun h => hne (h ▸ rfl)
      refine ⟨_, firstExceptionBase_syntheticException hname' hparent, ?_⟩
      have hrecorded : appErrorVm.exceptionParents =
          ("AppError", "ValueError") :: ("AppError", "ValueError") ::
            Vm.initial.exceptionParents := by
        decide
      have hbeq : (name == "AppError") = false :=
        beq_eq_false_iff_ne.2 fun h => hfresh (h ▸ hname')
      change appErrorVm.exceptionParentName name = some parent
      rw [← hparent, Vm.exceptionParentName, Vm.exceptionParentName, hrecorded, List.lookup_cons,
        hbeq, List.lookup_cons, hbeq]
  · intro id base hid hbase hexc
    have hcase := hcases (.user id) hid (Ancestor.of_base hbase hexc)
    obtain hcase | ⟨name, -, hcase⟩ := hcase
    · obtain rfl := ClassRef.user.inj hcase
      rw [hbases, List.mem_singleton] at hbase
      exact hbase ▸ .single (.inl hfirst)
    · cases hcase

/-- The machine after `class LookupFailure(KeyError, ValueError): ...`. -/
def lookupFailureVm : Vm :=
  (Vm.initial.classValueFromModule "LookupFailure"
    [.syntheticException "KeyError", .syntheticException "ValueError"]).1

/-- `except ValueError` does not take a `LookupFailure`, although `ValueError` is a base of it. -/
theorem not_handlerSelection_lookupFailureVm :
    RunsClassActions lookupFailureVm ∧ ¬HandlerSelection lookupFailureVm := by
  have hadds : AddsClass Vm.initial lookupFailureVm ⟨"LookupFailure",
      [.syntheticException "KeyError", .syntheticException "ValueError"],
      [.user 0, .syntheticException "KeyError", .syntheticException "LookupError",
        .syntheticException "ValueError", .syntheticException "Exception",
        .syntheticException "BaseException", .object]⟩ := by
    rw [AddsClass]
    decide
  have hbuiltin : "KeyError" ∈ builtinExceptionNames ∧ "ValueError" ∈ builtinExceptionNames := by
    simp [builtinExceptionNames, builtinExceptionParents]
  have hknown : KnownClass lookupFailureVm.classes.length (.user 0) := by
    show 0 < lookupFailureVm.classes.length
    rw [show lookupFailureVm.classes.length = 1 from hadds.length]
    omega
  have hbase : ClassRef.syntheticException "ValueError" ∈
      lookupFailureVm.directBases (.user 0) := by
    rw [show lookupFailureVm.directBases (.user 0) =
      [.syntheticException "KeyError", .syntheticException "ValueError"] from hadds.directBases_new]
    simp
  have hvalueError := isExceptionClass_syntheticException lookupFailureVm hbuiltin.2
  constructor
  · refine .classStatement .initial ?_
      (classStatement_eq Vm.initial "LookupFailure"
        [.syntheticException "KeyError", .syntheticException "ValueError"] (by decide))
    intro b hb
    rcases List.mem_pair.1 hb with rfl | rfl
    · exact hbuiltin.1
    · exact hbuiltin.2
  · intro h
    obtain ⟨matched, hm, hiff⟩ :=
      (h none ⟨0, "LookupFailure", none, [], [], none, none, false, []⟩ (.user 0) hknown
        (Ancestor.of_base hbase hvalueError) hadds.className_new.symm).1
        (.syntheticException "ValueError") hbuiltin.2 hvalueError
    have hfalse : lookupFailureVm.exceptionMatches none
        (.exception ⟨0, "LookupFailure", none, [], [], none, none, false, []⟩)
        (.exceptionType "ValueError") = .ok false := by
      show Except.ok (lookupFailureVm.exceptionInherits "LookupFailure" "ValueError") = _
      exact congrArg _ (by decide)
    have : matched = false := Except.ok.inj (hm.symm.trans hfalse)
    rw [this] at hiff
    exact absurd (hiff.2 (Ancestor.of_base hbase (Ancestor.refl _ _))) (by simp)

end Pyrs
