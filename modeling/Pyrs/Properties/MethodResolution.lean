import Pyrs.Library.Linearization
import Pyrs.Properties.HandlerSelection

/-!
# Method resolution order

The order of every class is the C3 linearization of its bases, as long as class statements and
assignments to `__bases__` stay clear of what the machine does without a consistent order, with a
class that is called `object` too, and with the subclasses of a class whose bases change.

The bases of a class may be class objects, exception types and builtin types; the orders of the
last two are those of the start-up.  `Vm.Ordered` is the invariant of a run, with one step for a
class statement and one for an assignment.
-/

namespace Pyrs

/-! ## The linearization of a class -/

/-- The order that a class has cached. -/
def Vm.mroOf (vm : Vm) (cls : ClassRef) : List ClassRef :=
  ((vm.classData cls).map (·.mro)).getD []

/-- `order` is the C3 linearization of a class over its bases, the merge of their orders. -/
def Vm.Linearizes (vm : Vm) (cls : ClassRef) (bases order : List ClassRef) : Prop :=
  ∃ merged, C3.Merges (bases.map vm.mroOf ++ [bases]) merged ∧ order = cls :: merged ∧ cls ∉ merged

/-- Every class has the linearization of its current bases. -/
def Vm.Linearized (vm : Vm) : Prop :=
  ∀ cls data, vm.classData cls = some data → vm.Linearizes cls data.bases data.mro

/-- What changes the hierarchy: a class statement, and an assignment to `__bases__`. -/
inductive ClassAction
  | create (name : String) (bases : List ClassRef)
  | assignBases (id : ℕ) (bases : List ClassRef)

namespace ClassAction

/-- The bases that the class has afterwards. -/
def bases : ClassAction → List ClassRef
  | .create _ bases => if bases = [] then [.object] else bases
  | .assignBases _ bases => bases

/-- The class that is created or changed. -/
def cls (vm : Vm) : ClassAction → ClassRef
  | .create _ _ => .user vm.classes.length
  | .assignBases id _ => .user id

/-- The classes that the action names exist. -/
def Known (vm : Vm) (action : ClassAction) : Prop :=
  (∀ base ∈ action.bases, (vm.classData base).isSome) ∧
    ∀ id bases, action = .assignBases id bases → id < vm.classes.length

end ClassAction

/-- An error leaves the machine as it was. -/
def Vm.perform (vm : Vm) : ClassAction → Except RuntimeError Vm
  | .create name bases => (vm.classStatement name (bases.map ClassRef.value)).map Prod.fst
  | .assignBases id bases => vm.updateClassBasesAttr id (bases.map ClassRef.value)

/-- A consistent linearization exists. -/
def Vm.HasOrder (vm : Vm) (action : ClassAction) : Prop :=
  ∃ order, vm.Linearizes (action.cls vm) action.bases order

/-- No class called `object` stands before the end of the order of a base. -/
def Vm.ObjectLast (vm : Vm) (bases : List ClassRef) : Prop :=
  ∀ base ∈ bases, ∀ before entry after, vm.mroOf base = before ++ entry :: after →
    (vm.classData entry).map (·.name) = some "object" → after = []

/-- A base is given twice, or the order of the class exists, holds no other class called `object`
in front, and is no news to a subclass. -/
def Vm.KeepsOrders (vm : Vm) (action : ClassAction) : Prop :=
  action.bases.Nodup → vm.ObjectLast action.bases ∧ vm.HasOrder action ∧
    ∀ id bases, action = .assignBases id bases →
      (∀ cls data, vm.classData cls = some data → .user id ∉ data.bases) ∨
        vm.Linearizes (.user id) bases (vm.mroOf (.user id))

/-- The machines that allowed actions lead to. -/
inductive Reaches (Allowed : Vm → ClassAction → Prop) : Vm → Prop
  | initial : Reaches Allowed Vm.initial
  | step {vm vm' : Vm} {action : ClassAction} (h : Reaches Allowed vm) (hknown : action.Known vm)
      (hallowed : Allowed vm action) (hstep : vm.perform action = .ok vm') : Reaches Allowed vm'

/-! ## The merge loop -/

lemma mergeMro_eq_some_iff {fuel : ℕ} {seqs : List (List ClassRef)} {merged : List ClassRef}
    (hfuel : (seqs.map List.length).sum < fuel) :
    mergeMro fuel seqs = some merged ↔ C3.Merges seqs merged := by
  induction fuel generalizing seqs merged with
  | zero => omega
  | succ fuel ih =>
    rw [← C3.merges_filter, mergeMro]
    dsimp only
    generalize hkept : seqs.filter (· ≠ []) = kept
    have hsum : (kept.map List.length).sum < fuel + 1 := by
      subst hkept
      refine lt_of_le_of_lt ?_ hfuel
      exact (List.filter_sublist.map List.length).sum_le_sum (fun _ _ => Nat.zero_le _)
    split_ifs with hnil
    · subst hnil
      constructor
      · rintro h
        obtain rfl := Option.some.inj h
        exact .nil (by simp)
      · intro h
        cases h with
        | nil _ => rfl
        | cons hnext _ => cases hnext
    have hnext : ∀ entry, C3.Next kept kept entry ↔ (kept.filterMap List.head?).find?
        (fun head => kept.all fun other => head ∉ other.tail) = some entry := fun entry =>
      C3.next_iff_find? _ fun other => by simp [C3.Free]
    cases hfind : (kept.filterMap List.head?).find?
        (fun head => kept.all fun other => head ∉ other.tail) with
    | none =>
      refine iff_of_false (by simp) fun h => ?_
      cases h with
      | nil h =>
        obtain ⟨seq, hseq⟩ := List.exists_mem_of_ne_nil _ hnil
        have hkeptSeq := hkept ▸ hseq
        simp [h seq hseq] at hkeptSeq
      | cons h _ =>
        rw [hnext, hfind] at h
        cases h
    | some head =>
      have hhead := (hnext head).2 hfind
      have hlt := hhead.length_lt
      dsimp only
      rw [Option.map_eq_some_iff]
      have hiff := fun rest => @ih (kept.map (C3.dropFront head)) rest (by omega)
      constructor
      · rintro ⟨rest, hrest, rfl⟩
        exact .cons hhead ((hiff rest).1 hrest)
      · intro h
        cases h with
        | nil h =>
          obtain ⟨rest, hrest⟩ := hhead.exists_mem
          cases h _ hrest
        | @cons _ entry rest hentry h =>
          obtain rfl := hhead.unique hentry
          exact ⟨rest, (hiff rest).2 h, rfl⟩

/-! ## Cached orders -/

variable {vm vm' : Vm} {cls : ClassRef} {bases order : List ClassRef}

lemma Vm.Linearizes.nodup (h : vm.Linearizes cls bases order) : order.Nodup := by
  obtain ⟨merged, hmerged, rfl, hcls⟩ := h
  exact List.nodup_cons.2 ⟨hcls, hmerged.nodup⟩

lemma Vm.Linearizes.ne_nil (h : vm.Linearizes cls bases order) : order ≠ [] := by
  obtain ⟨merged, -, rfl, -⟩ := h
  exact List.cons_ne_nil _ _

/-- A class is none of its bases. -/
lemma Vm.Linearizes.notMem_bases (h : vm.Linearizes cls bases order) : cls ∉ bases := by
  obtain ⟨merged, hmerged, rfl, hcls⟩ := h
  exact fun hmem => hcls (hmerged.mem bases (by simp) cls hmem)

lemma Vm.Linearizes.unique {order' : List ClassRef} (h : vm.Linearizes cls bases order)
    (h' : vm.Linearizes cls bases order') : order = order' := by
  obtain ⟨merged, hmerged, rfl, -⟩ := h
  obtain ⟨merged', hmerged', rfl, -⟩ := h'
  rw [hmerged.unique hmerged']

/-- The linearization depends on the orders of the bases only. -/
lemma Vm.Linearizes.congr (h : vm.Linearizes cls bases order)
    (horders : ∀ base ∈ bases, vm'.mroOf base = vm.mroOf base) :
    vm'.Linearizes cls bases order := by
  unfold Vm.Linearizes
  rwa [List.map_congr_left horders]

/-- The new entries of a list without duplicates are its entries. -/
lemma foldl_newEntries_of_nodup (entries : List ClassRef) (acc : List ClassRef × List ClassRef)
    (hnodup : entries.Nodup) (hfresh : ∀ entry ∈ entries, entry ∉ acc.2) :
    entries.foldl (fun acc entry =>
      if entry ∈ acc.2 then acc else (acc.1 ++ [entry], acc.2 ++ [entry])) acc =
      (acc.1 ++ entries, acc.2 ++ entries) := by
  induction entries generalizing acc with
  | nil => simp
  | cons entry entries ih =>
    obtain ⟨hentry, hentries⟩ := List.nodup_cons.1 hnodup
    rw [List.foldl_cons, if_neg (hfresh entry List.mem_cons_self), ih _ hentries]
    · simp
    · intro other hother
      rw [List.mem_append, List.mem_singleton]
      rintro (hmem | rfl)
      · exact hfresh other (List.mem_cons_of_mem _ hother) hmem
      · exact hentry hother

/-- A cached order is used as it is when `object` can only stand at its end. -/
lemma classMroEntries_eq {data : ClassObject} (hdata : vm.classData cls = some data)
    (hne : data.mro ≠ []) (hnodup : data.mro.Nodup)
    (hobject : ∀ before entry after, data.mro = before ++ entry :: after →
      (vm.classData entry).map (·.name) = some "object" → after = []) :
    vm.classMroEntries cls = data.mro := by
  have hentries : (vm.collectMroEntries (vm.classes.length + 1) cls []).1 = data.mro := by
    rw [Vm.collectMroEntries]
    simp only [hdata, if_pos hne]
    rw [foldl_newEntries_of_nodup _ _ hnodup (by simp)]
    rfl
  rw [Vm.classMroEntries]
  simp only [hentries]
  cases hfind : data.mro.find? fun entry =>
      decide ((vm.classData entry).map (·.name) = some "object") with
  | none => rfl
  | some entry =>
    obtain ⟨before, after, hsplit⟩ := List.append_of_mem (List.mem_of_find?_eq_some hfind)
    obtain rfl := hobject before entry after hsplit (by simpa using List.find?_some hfind)
    have hbefore : entry ∉ before := by
      rw [hsplit, List.nodup_append] at hnodup
      exact fun hmem => hnodup.2.2 entry hmem entry (by simp) rfl
    dsimp only
    rw [hsplit, List.erase_append_right _ hbefore]
    simp

/-- `build_class_mro` finds the linearization. -/
lemma buildClassMro_eq (hentries : ∀ base ∈ bases, vm.classMroEntries base = vm'.mroOf base)
    (horder : vm'.Linearizes cls bases order) : vm.buildClassMro cls bases = some order := by
  obtain ⟨merged, hmerged, rfl, -⟩ := horder
  rw [Vm.buildClassMro]
  split_ifs with hnil
  · subst hnil
    cases hmerged with
    | nil _ => rfl
    | cons hnext _ =>
      obtain ⟨rest, hrest⟩ := hnext.exists_mem
      simp at hrest
  · dsimp only
    rw [List.map_congr_left hentries, (mergeMro_eq_some_iff (by omega)).2 hmerged]
    rfl

/-! ## Steps -/

/-- What holds of every machine in a run: bases and orders hold existing classes only, and the
orders are linearizations. -/
structure Vm.Ordered (vm : Vm) : Prop where
  basesExist : ∀ cls data, vm.classData cls = some data →
    ∀ base ∈ data.bases, (vm.classData base).isSome
  entriesExist : ∀ cls data, vm.classData cls = some data →
    ∀ entry ∈ data.mro, (vm.classData entry).isSome
  linearized : vm.Linearized

lemma mroOf_eq {data : ClassObject} (h : vm.classData cls = some data) :
    vm.mroOf cls = data.mro := by
  rw [Vm.mroOf, h]
  rfl

/-- The bases of an action give a larger machine the orders that they have cached. -/
lemma Vm.Ordered.classMroEntries_eq (h : vm.Ordered)
    (hsame : ∀ cls, (vm.classData cls).isSome → vm'.classData cls = vm.classData cls)
    (hobject : vm.ObjectLast bases) (hbases : ∀ base ∈ bases, (vm.classData base).isSome) :
    ∀ base ∈ bases, vm'.classMroEntries base = vm.mroOf base := by
  intro base hbase
  obtain ⟨data, hdata⟩ := Option.isSome_iff_exists.1 (hbases base hbase)
  have horder := h.linearized base data hdata
  rw [mroOf_eq hdata]
  refine Pyrs.classMroEntries_eq ((hsame base (hbases base hbase)).trans hdata) horder.ne_nil
    horder.nodup fun before entry after hsplit hname => ?_
  rw [hsame entry (h.entriesExist base data hdata entry (by simp [hsplit]))] at hname
  exact hobject base hbase before entry after ((mroOf_eq hdata).trans hsplit) hname

/-- The entries of a linearization exist when the bases exist. -/
lemma Vm.Ordered.exists_of_mem (h : vm.Ordered) (horder : vm.Linearizes cls bases order)
    (hbases : ∀ base ∈ bases, (vm.classData base).isSome) :
    ∀ entry ∈ order, entry = cls ∨ (vm.classData entry).isSome := by
  obtain ⟨merged, hmerged, rfl, -⟩ := horder
  intro entry hentry
  refine (List.mem_cons.1 hentry).imp_right fun hentry => ?_
  obtain ⟨seq, hseq, hmem⟩ := hmerged.exists_mem entry hentry
  rcases List.mem_append.1 hseq with hseq | hseq
  · obtain ⟨base, hbase, rfl⟩ := List.mem_map.1 hseq
    obtain ⟨data, hdata⟩ := Option.isSome_iff_exists.1 (hbases base hbase)
    exact h.entriesExist base data hdata entry (mroOf_eq hdata ▸ hmem)
  · exact hbases entry (List.mem_singleton.1 hseq ▸ hmem)

lemma AddsClass.classData_of_isSome {data : ClassObject} (h : AddsClass vm vm' data)
    (hcls : (vm.classData cls).isSome) : vm'.classData cls = vm.classData cls := by
  cases cls with
  | object => rfl
  | syntheticException name => rfl
  | builtin base => rfl
  | user id =>
    obtain ⟨data', hdata⟩ := Option.isSome_iff_exists.1 hcls
    change vm'.classes[id]? = vm.classes[id]?
    rw [show vm'.classes = vm.classes ++ [data] from h,
      List.getElem?_append_left (List.getElem?_eq_some_iff.1 hdata).1]

lemma AddsClass.classData_cases {data data' : ClassObject} (h : AddsClass vm vm' data)
    (hcls : vm'.classData cls = some data') :
    vm.classData cls = some data' ∨ cls = .user vm.classes.length ∧ data' = data := by
  cases cls with
  | object => exact .inl hcls
  | syntheticException name => exact .inl hcls
  | builtin base => exact .inl hcls
  | user id =>
    change vm'.classes[id]? = some data' at hcls
    rw [show vm'.classes = vm.classes ++ [data] from h] at hcls
    rcases lt_trichotomy id vm.classes.length with hid | hid | hid
    · rw [List.getElem?_append_left hid] at hcls
      exact .inl hcls
    · subst hid
      rw [List.getElem?_concat_length] at hcls
      exact .inr ⟨rfl, (Option.some.inj hcls).symm⟩
    · rw [List.getElem?_eq_none (by simp; omega)] at hcls
      cases hcls

/-- A new class with its linearization. -/
lemma Vm.Ordered.addsClass (h : vm.Ordered) {name : String}
    (hadds : AddsClass vm vm' ⟨name, bases, order⟩)
    (hbases : ∀ base ∈ bases, (vm.classData base).isSome)
    (horder : vm.Linearizes (.user vm.classes.length) bases order) : vm'.Ordered := by
  have hexists : ∀ cls, (vm.classData cls).isSome → (vm'.classData cls).isSome := fun cls hcls => by
    rwa [hadds.classData_of_isSome hcls]
  have hnew : (vm'.classData (.user vm.classes.length)).isSome := by
    change (vm'.classes[vm.classes.length]?).isSome
    rw [show vm'.classes = vm.classes ++ [_] from hadds, List.getElem?_concat_length]
    rfl
  have hcongr : ∀ {cls bases order}, vm.Linearizes cls bases order →
      (∀ base ∈ bases, (vm.classData base).isSome) → vm'.Linearizes cls bases order :=
    fun hlinearizes hbases => hlinearizes.congr fun base hbase => by
      rw [Vm.mroOf, hadds.classData_of_isSome (hbases base hbase), Vm.mroOf]
  refine ⟨fun cls data hdata base hbase => ?_, fun cls data hdata entry hentry => ?_,
    fun cls data hdata => ?_⟩
  · rcases hadds.classData_cases hdata with hdata | ⟨rfl, rfl⟩
    · exact hexists base (h.basesExist cls data hdata base hbase)
    · exact hexists base (hbases base hbase)
  · rcases hadds.classData_cases hdata with hdata | ⟨rfl, rfl⟩
    · exact hexists entry (h.entriesExist cls data hdata entry hentry)
    · rcases h.exists_of_mem horder hbases entry hentry with rfl | hentry
      · exact hnew
      · exact hexists entry hentry
  · rcases hadds.classData_cases hdata with hdata | ⟨rfl, rfl⟩
    · exact hcongr (h.linearized cls data hdata) (h.basesExist cls data hdata)
    · exact hcongr horder hbases

/-- The machine in which a class has other bases and another order. -/
def Vm.withBases (vm : Vm) (id : ℕ) (bases mro : List ClassRef) : Vm :=
  { vm with classes := vm.classes.modify id fun data => { data with bases := bases, mro := mro } }

lemma classData_withBases_self {id : ℕ} {data : ClassObject}
    (hdata : vm.classData (.user id) = some data) :
    (vm.withBases id bases order).classData (.user id) =
      some { data with bases := bases, mro := order } := by
  change vm.classes[id]? = some data at hdata
  change (vm.classes.modify id _)[id]? = _
  rw [List.getElem?_modify_eq, hdata]
  rfl

lemma classData_withBases_of_ne {id : ℕ} (hcls : cls ≠ .user id) :
    (vm.withBases id bases order).classData cls = vm.classData cls := by
  cases cls with
  | object => rfl
  | syntheticException name => rfl
  | builtin base => rfl
  | user id' =>
    change (vm.classes.modify id _)[id']? = vm.classes[id']?
    exact List.getElem?_modify_ne _ _ fun heq => hcls (congrArg ClassRef.user heq.symm)

/-- Other bases for a class, whose order is no news to the classes that have it as a base. -/
lemma Vm.Ordered.withBases (h : vm.Ordered) {id : ℕ} (hid : id < vm.classes.length)
    (hbases : ∀ base ∈ bases, (vm.classData base).isSome)
    (horder : vm.Linearizes (.user id) bases order)
    (hsubclasses : (∀ cls data, vm.classData cls = some data → .user id ∉ data.bases) ∨
      vm.Linearizes (.user id) bases (vm.mroOf (.user id))) :
    (vm.withBases id bases order).Ordered := by
  have hself := @classData_withBases_self vm bases order id vm.classes[id]
    (List.getElem?_eq_getElem hid)
  have hexists : ∀ cls, (vm.classData cls).isSome →
      ((vm.withBases id bases order).classData cls).isSome := fun cls hcls => by
    by_cases heq : cls = .user id
    · rw [heq, hself]
      rfl
    · rwa [classData_withBases_of_ne heq]
  have hmroOf : ∀ cls ≠ .user id, (vm.withBases id bases order).mroOf cls = vm.mroOf cls :=
    fun cls hcls => by rw [Vm.mroOf, classData_withBases_of_ne hcls, Vm.mroOf]
  have hcases : ∀ {cls data}, (vm.withBases id bases order).classData cls = some data →
      cls = .user id ∧ data.bases = bases ∧ data.mro = order ∨
        cls ≠ .user id ∧ vm.classData cls = some data := by
    intro cls data hdata
    by_cases heq : cls = .user id
    · rw [heq, hself] at hdata
      obtain rfl := Option.some.inj hdata
      exact .inl ⟨heq, rfl, rfl⟩
    · rw [classData_withBases_of_ne heq] at hdata
      exact .inr ⟨heq, hdata⟩
  refine ⟨fun cls data hdata base hbase => ?_, fun cls data hdata entry hentry => ?_,
    fun cls data hdata => ?_⟩
  · rcases hcases hdata with ⟨-, hdata, -⟩ | ⟨-, hdata⟩
    · exact hexists base (hbases base (hdata ▸ hbase))
    · exact hexists base (h.basesExist cls data hdata base hbase)
  · rcases hcases hdata with ⟨-, -, hdata⟩ | ⟨-, hdata⟩
    · rcases h.exists_of_mem horder hbases entry (hdata ▸ hentry) with rfl | hentry
      · rw [hself]
        rfl
      · exact hexists entry hentry
    · exact hexists entry (h.entriesExist cls data hdata entry hentry)
  · rcases hcases hdata with ⟨rfl, hdataBases, hdataOrder⟩ | ⟨-, hdata⟩
    · rw [hdataBases, hdataOrder]
      refine horder.congr fun base hbase => hmroOf base ?_
      rintro rfl
      exact horder.notMem_bases hbase
    · refine (h.linearized cls data hdata).congr fun base hbase => ?_
      by_cases hbase' : base = .user id
      · rcases hsubclasses with hnone | hsame
        · exact absurd (hbase' ▸ hbase) (hnone cls data hdata)
        · rw [hbase', mroOf_eq hself, horder.unique hsame]
      · exact hmroOf base hbase'

/-! ## What an action does -/

lemma ClassAction.nodup_bases_create {name : String} (hbases : bases.Nodup) :
    (ClassAction.create name bases).bases.Nodup := by
  change (if bases = [] then [ClassRef.object] else bases).Nodup
  split_ifs
  · exact List.nodup_singleton _
  · exact hbases

/-- A base that is given twice is an error. -/
lemma exists_perform_eq_error {action : ClassAction} (hbases : ¬ action.bases.Nodup) :
    ∃ message, vm.perform action = .error message := by
  cases action with
  | create name bases =>
    cases hresult : vm.classStatement name (bases.map ClassRef.value) with
    | error message => exact ⟨message, by rw [Vm.perform, hresult]; rfl⟩
    | ok result =>
      exact absurd (ClassAction.nodup_bases_create (classStatement_eq_ok hresult).1) hbases
  | assignBases id bases =>
    obtain ⟨message, hmessage⟩ := exists_ensureUniqueBaseClasses_eq_error vm hbases
    change vm.ensureUniqueBaseClasses bases = _ at hmessage
    refine ⟨message, ?_⟩
    rw [Vm.perform, Vm.updateClassBasesAttr, mapM_classFromBaseValue]
    change (vm.ensureUniqueBaseClasses bases >>= fun _ => _) = _
    rw [hmessage]
    rfl

lemma perform_create_eq_ok {name : String}
    (h : vm.perform (.create name bases) = .ok vm') :
    (vm.classValueFromModule name bases).1 = vm' ∧ bases.Nodup := by
  rw [Vm.perform] at h
  cases hresult : vm.classStatement name (bases.map ClassRef.value) with
  | error message =>
    rw [hresult] at h
    cases h
  | ok result =>
    rw [hresult] at h
    obtain ⟨hnodup, hvalue⟩ := classStatement_eq_ok hresult
    exact ⟨hvalue ▸ Except.ok.inj h, hnodup⟩

lemma perform_assignBases_eq_ok {id : ℕ} (h : vm.perform (.assignBases id bases) = .ok vm') :
    vm' = vm.withBases id bases (if bases = [] then [.user id]
      else (vm.buildClassMro (.user id) bases).getD (.user id :: bases)) ∧ bases.Nodup := by
  obtain ⟨hnodup, hvm⟩ := updateClassBasesAttr_eq_ok h
  exact ⟨hvm, hnodup⟩

/-- A class statement that keeps the orders. -/
lemma Vm.Ordered.create (h : vm.Ordered) {name : String}
    (hknown : (ClassAction.create name bases).Known vm)
    (hkeeps : vm.KeepsOrders (.create name bases))
    (hstep : vm.perform (.create name bases) = .ok vm') : vm'.Ordered := by
  obtain ⟨rfl, hnodup⟩ := perform_create_eq_ok hstep
  obtain ⟨hobject, ⟨order, horder⟩, -⟩ := hkeeps (ClassAction.nodup_bases_create hnodup)
  obtain ⟨mro, hmro, hfinal⟩ := classValueFromModule_eq vm name bases
  have hallocated : AddsClass vm { vm with classes := vm.classes ++
      [⟨name, if bases = [] then [.object] else bases, []⟩] } ⟨name, _, []⟩ := rfl
  have hbuild := buildClassMro_eq (h.classMroEntries_eq
    (fun _ => hallocated.classData_of_isSome) hobject hknown.1) horder
  change Vm.buildClassMro _ (.user vm.classes.length) (if bases = [] then [.object] else bases) =
    some order at hbuild
  rw [hbuild, Option.getD_some] at hmro
  subst hmro
  refine @Vm.Ordered.addsClass _ _ _ _ h name ?_ hknown.1 horder
  rw [AddsClass, hfinal, recordExceptionParentForClass_classes,
    recordExceptionParentForClass_classes]
  rfl

/-- An assignment to `__bases__` that keeps the orders. -/
lemma Vm.Ordered.assignBases (h : vm.Ordered) {id : ℕ}
    (hknown : (ClassAction.assignBases id bases).Known vm)
    (hkeeps : vm.KeepsOrders (.assignBases id bases))
    (hstep : vm.perform (.assignBases id bases) = .ok vm') : vm'.Ordered := by
  obtain ⟨rfl, hnodup⟩ := perform_assignBases_eq_ok hstep
  obtain ⟨hobject, ⟨order, horder⟩, hsubclasses⟩ := hkeeps hnodup
  have hbuild := buildClassMro_eq (h.classMroEntries_eq (fun _ _ => rfl) hobject hknown.1) horder
  have horderEq : (if bases = [] then [.user id]
      else (vm.buildClassMro (.user id) bases).getD (.user id :: bases)) = order := by
    change vm.buildClassMro (.user id) bases = some order at hbuild
    split_ifs with hnil
    · subst hnil
      exact Option.some.inj hbuild
    · rw [hbuild, Option.getD_some]
  rw [horderEq]
  exact h.withBases (hknown.2 id bases rfl) hknown.1 horder (hsubclasses id bases rfl)

/-! ## The built-in classes -/

/-- A single base is followed by its order. -/
lemma merges_singleBase {base : ClassRef} {rest : List ClassRef} (hnodup : (base :: rest).Nodup) :
    C3.Merges [base :: rest, [base]] (base :: rest) := by
  have hchain : ∀ entries : List ClassRef, entries.Nodup → C3.Merges [entries, []] entries := by
    intro entries hentries
    induction entries with
    | nil => exact .nil (by simp)
    | cons entry entries ih =>
      obtain ⟨hentry, hentries⟩ := List.nodup_cons.1 hentries
      refine .cons (.head fun seq hseq => ?_) ?_
      · rcases List.mem_pair.1 hseq with rfl | rfl
        · exact hentry
        · simp
      · simpa using ih hentries
  obtain ⟨hbase, hrest⟩ := List.nodup_cons.1 hnodup
  refine .cons (.head fun seq hseq => ?_) ?_
  · rcases List.mem_pair.1 hseq with rfl | rfl
    · exact hbase
    · simp
  · simpa using hchain rest hrest

lemma builtinExceptionChain_of_parent_none {name : String}
    (h : builtinExceptionParent name = none) (fuel : ℕ) : builtinExceptionChain fuel name = [] := by
  cases fuel with
  | zero => rfl
  | succ fuel => rw [builtinExceptionChain, h]

lemma builtinExceptionChain_of_parent {name parent : String}
    (h : builtinExceptionParent name = some parent) (fuel : ℕ) :
    builtinExceptionChain (fuel + 1) name = parent :: builtinExceptionChain fuel parent := by
  rw [builtinExceptionChain, h]

/-- Where a name stands in the table, behind `BaseException`. -/
def builtinExceptionRank (name : String) : ℕ :=
  ParentTable.rank ["BaseException"] builtinExceptionParents name

/-- The table of built-in exceptions holds no cycle. -/
lemma builtinExceptionRank_lt {name parent : String}
    (h : builtinExceptionParent name = some parent) :
    builtinExceptionRank parent < builtinExceptionRank name := by
  refine grounded_builtinExceptionParents.rank_lt (fun hroot => ?_) h
  have hnone : builtinExceptionParent "BaseException" = none := by decide
  rw [List.mem_singleton.1 hroot, hnone] at h
  cases h

lemma builtinExceptionRank_lt_of_mem_chain {fuel : ℕ} {name other : String}
    (h : other ∈ builtinExceptionChain fuel name) :
    builtinExceptionRank other < builtinExceptionRank name := by
  induction fuel generalizing name with
  | zero => cases h
  | succ fuel ih =>
    cases hparent : builtinExceptionParent name with
    | none =>
      rw [builtinExceptionChain_of_parent_none hparent] at h
      cases h
    | some parent =>
      have hlt := builtinExceptionRank_lt hparent
      rw [builtinExceptionChain_of_parent hparent] at h
      obtain rfl | h := List.mem_cons.1 h
      · exact hlt
      · exact (ih h).trans hlt

lemma nodup_builtinExceptionChain (fuel : ℕ) (name : String) :
    (name :: builtinExceptionChain fuel name).Nodup := by
  refine List.nodup_cons.2 ⟨fun h => lt_irrefl _ (builtinExceptionRank_lt_of_mem_chain h), ?_⟩
  induction fuel generalizing name with
  | zero => exact List.nodup_nil
  | succ fuel ih =>
    cases hparent : builtinExceptionParent name with
    | none =>
      rw [builtinExceptionChain_of_parent_none hparent]
      exact List.nodup_nil
    | some parent =>
      rw [builtinExceptionChain_of_parent hparent]
      exact List.nodup_cons.2
        ⟨fun h => lt_irrefl _ (builtinExceptionRank_lt_of_mem_chain h), ih parent⟩

/-- More fuel than the rank of a name finds nothing more. -/
lemma builtinExceptionChain_succ {fuel : ℕ} {name : String} (h : builtinExceptionRank name ≤ fuel) :
    builtinExceptionChain (fuel + 1) name = builtinExceptionChain fuel name := by
  induction fuel generalizing name with
  | zero =>
    cases hparent : builtinExceptionParent name with
    | none => rw [builtinExceptionChain_of_parent_none hparent, builtinExceptionChain]
    | some parent => exact absurd (builtinExceptionRank_lt hparent) (by omega)
  | succ fuel ih =>
    cases hparent : builtinExceptionParent name with
    | none => simp only [builtinExceptionChain_of_parent_none hparent]
    | some parent =>
      have hlt := builtinExceptionRank_lt hparent
      rw [builtinExceptionChain_of_parent hparent, builtinExceptionChain_of_parent hparent,
        ih (by omega)]

/-- The depth of the table is below its length. -/
lemma builtinExceptionChain_spec : ∀ name ∈ builtinExceptionParents.map Prod.fst,
    (name :: builtinExceptionChain builtinExceptionParents.length name).Nodup ∧
      ∀ parent ∈ builtinExceptionParent name,
        builtinExceptionChain builtinExceptionParents.length name =
          parent :: builtinExceptionChain builtinExceptionParents.length parent := by
  intro name hname
  refine ⟨nodup_builtinExceptionChain _ name, fun parent hparent => ?_⟩
  have hrank : builtinExceptionRank name < 1 + builtinExceptionParents.length :=
    ParentTable.rank_lt_length hname
  rw [← builtinExceptionChain_succ (by omega), builtinExceptionChain_of_parent hparent]

/-- The synthetic class of a built-in exception has its linearization. -/
lemma linearizes_syntheticException (vm : Vm) {name : String} {data : ClassObject}
    (hdata : vm.classData (.syntheticException name) = some data) :
    vm.Linearizes (.syntheticException name) data.bases data.mro := by
  obtain rfl := Option.some.inj hdata
  dsimp only
  cases hparent : builtinExceptionParent name with
  | none =>
    rw [builtinExceptionChain_of_parent_none hparent]
    exact ⟨[.object], merges_singleBase (List.nodup_singleton _), rfl, by simp⟩
  | some parent =>
    obtain ⟨hnodup, hchain⟩ :=
      builtinExceptionChain_spec name (mem_map_fst_of_lookup hparent)
    have horder := (hnodup.map (fun _ _ h => ClassRef.syntheticException.inj h)).append
      (List.nodup_singleton ClassRef.object) (by simp)
    rw [hchain parent hparent] at horder ⊢
    obtain ⟨hname, hparents⟩ := List.nodup_cons.1 horder
    exact ⟨_, merges_singleBase hparents, rfl, hname⟩

/-- The class of a built-in type has its linearization. -/
lemma linearizes_builtin (vm : Vm) {base : BuiltinType} {data : ClassObject}
    (hdata : vm.classData (.builtin base) = some data) :
    vm.Linearizes (.builtin base) data.bases data.mro := by
  obtain rfl := Option.some.inj hdata
  have hobject : C3.Merges ([ClassRef.object].map vm.mroOf ++ [[ClassRef.object]]) [.object] :=
    merges_singleBase (List.nodup_singleton _)
  have hdict : C3.Merges ([ClassRef.builtin .dict].map vm.mroOf ++ [[ClassRef.builtin .dict]])
      [.builtin .dict, .object] := merges_singleBase (by decide)
  cases base with
  | collectionsCounter => exact ⟨_, hdict, rfl, by decide⟩
  | collectionsDefaultDict => exact ⟨_, hdict, rfl, by decide⟩
  | collectionsOrderedDict => exact ⟨_, hdict, rfl, by decide⟩
  | _ => exact ⟨_, hobject, rfl, by decide⟩

lemma ordered_initial : Vm.initial.Ordered := by
  refine ⟨fun cls data hdata base hbase => ?_, fun cls data hdata entry hentry => ?_,
    fun cls data hdata => ?_⟩
  · cases cls with
    | object =>
      obtain rfl := Option.some.inj hdata
      cases hbase
    | syntheticException name =>
      obtain rfl := Option.some.inj hdata
      dsimp only at hbase
      split at hbase <;> rw [List.mem_singleton.1 hbase] <;> rfl
    | builtin builtinType =>
      obtain rfl := Option.some.inj hdata
      cases builtinType <;> rw [List.mem_singleton.1 hbase] <;> rfl
    | user id => cases hdata
  · cases cls with
    | object =>
      obtain rfl := Option.some.inj hdata
      rw [List.mem_singleton.1 hentry]
      rfl
    | syntheticException name =>
      obtain rfl := Option.some.inj hdata
      cases entry with
      | object => rfl
      | syntheticException name => rfl
      | builtin base => rfl
      | user id => simp at hentry
    | builtin base =>
      obtain rfl := Option.some.inj hdata
      cases entry with
      | object => rfl
      | syntheticException name => rfl
      | builtin base' => rfl
      | user id => cases base <;> simp [BuiltinType.ancestors] at hentry
    | user id => cases hdata
  · cases cls with
    | object =>
      obtain rfl := Option.some.inj hdata
      exact ⟨[], .nil (by simp), rfl, by simp⟩
    | syntheticException name => exact linearizes_syntheticException _ hdata
    | builtin base => exact linearizes_builtin _ hdata
    | user id => cases hdata

/-! ## Runs -/

lemma Reaches.ordered {vm : Vm} (h : Reaches Vm.KeepsOrders vm) : vm.Ordered := by
  induction h with
  | initial => exact ordered_initial
  | @step vm vm' action _ hknown hallowed hstep ih =>
    cases action with
    | create name bases => exact ih.create hknown hallowed hstep
    | assignBases id bases => exact ih.assignBases hknown hallowed hstep

/-- In a run whose actions keep the orders every class has the C3 linearization of its bases, and
an action for which there is none is an error. -/
theorem linearized_of_reaches {vm : Vm} (h : Reaches Vm.KeepsOrders vm) :
    vm.Linearized ∧ ∀ action : ClassAction, vm.KeepsOrders action → ¬ vm.HasOrder action →
      ∃ message, vm.perform action = .error message :=
  ⟨h.ordered.linearized, fun _ hkeeps hnone =>
    exists_perform_eq_error fun hnodup => hnone (hkeeps hnodup).2.1⟩

lemma Vm.Ordered.exists_merged {vm : Vm} (h : vm.Ordered) {cls entry : ClassRef}
    (hentry : entry ∈ vm.mroOf cls) : ∃ bases merged,
      C3.Merges (bases.map vm.mroOf ++ [bases]) merged ∧ vm.mroOf cls = cls :: merged := by
  cases hdata : vm.classData cls with
  | none =>
    rw [Vm.mroOf, hdata] at hentry
    cases hentry
  | some data =>
    obtain ⟨merged, hmerged, horder, -⟩ := h.linearized cls data hdata
    exact ⟨data.bases, merged, hmerged, (mroOf_eq hdata).trans horder⟩

lemma Vm.Ordered.mroOf_sublist {vm : Vm} (h : vm.Ordered) {cls entry : ClassRef}
    (hentry : entry ∈ vm.mroOf cls) : (vm.mroOf entry).Sublist (vm.mroOf cls) := by
  induction hlength : (vm.mroOf cls).length using Nat.strongRecOn generalizing cls with
  | _ length ih =>
    obtain ⟨bases, merged, hmerged, horder⟩ := h.exists_merged hentry
    rw [horder] at hentry ⊢
    rcases List.mem_cons.1 hentry with rfl | hentry
    · rw [horder]
    have hbase : ∀ base ∈ bases, (vm.mroOf base).Sublist merged := fun base hbase =>
      hmerged.sublist _ (List.mem_append_left _ (List.mem_map_of_mem hbase))
    refine List.Sublist.cons cls ?_
    obtain ⟨seq, hseq, hmem⟩ := hmerged.exists_mem entry hentry
    rcases List.mem_append.1 hseq with hseq | hseq
    · obtain ⟨base, hmembase, rfl⟩ := List.mem_map.1 hseq
      refine (ih _ ?_ hmem rfl).trans (hbase base hmembase)
      rw [← hlength, horder, List.length_cons]
      exact Nat.lt_succ_of_le (hbase base hmembase).length_le
    · rw [List.mem_singleton.1 hseq] at hmem
      exact hbase entry hmem

/-- In such a run the order of a class keeps the order of each of its ancestors, and no class is
derived from itself. -/
theorem mroOf_sublist_of_reaches {vm : Vm} (h : Reaches Vm.KeepsOrders vm) {cls entry : ClassRef}
    (hentry : entry ∈ vm.mroOf cls) :
    (vm.mroOf entry).Sublist (vm.mroOf cls) ∧ (cls ∈ vm.mroOf entry → entry = cls) := by
  have hsublist := h.ordered.mroOf_sublist hentry
  refine ⟨hsublist, fun hcls => ?_⟩
  have hsame := hsublist.antisymm (h.ordered.mroOf_sublist hcls)
  obtain ⟨_, _, -, horder⟩ := h.ordered.exists_merged hentry
  obtain ⟨_, _, -, horder'⟩ := h.ordered.exists_merged hcls
  rw [horder, horder'] at hsame
  exact (List.cons.inj hsame).1

/-! ## Four actions with a built-in base, and bases in opposite orders -/

lemma perform_create (vm : Vm) (name : String) (bases : List ClassRef) (hbases : bases.Nodup) :
    vm.perform (.create name bases) = .ok (vm.classValueFromModule name bases).1 := by
  rw [Vm.perform, classStatement_eq _ _ _ hbases]
  rfl

lemma perform_assignBases (vm : Vm) (id : ℕ) (bases : List ClassRef) (hbases : bases.Nodup) :
    vm.perform (.assignBases id bases) = .ok (vm.withBases id bases (if bases = [] then [.user id]
      else (vm.buildClassMro (.user id) bases).getD (.user id :: bases))) := by
  rw [Vm.perform, Vm.updateClassBasesAttr, mapM_classFromBaseValue]
  change (vm.ensureUniqueBaseClasses bases >>= fun _ => _) = _
  rw [ensureUniqueBaseClasses_of_nodup hbases]
  rfl

/-- What the merge loop finds is a linearization. -/
lemma linearizes_of_mergeMro {vm : Vm} {cls : ClassRef} {bases merged : List ClassRef} (fuel : ℕ)
    (hfuel : ((bases.map vm.mroOf ++ [bases]).map List.length).sum < fuel)
    (hmerge : mergeMro fuel (bases.map vm.mroOf ++ [bases]) = some merged) (hcls : cls ∉ merged) :
    vm.Linearizes cls bases (cls :: merged) :=
  ⟨merged, (mergeMro_eq_some_iff hfuel).1 hmerge, rfl, hcls⟩

lemma objectLast_of_dropLast {vm : Vm} {bases : List ClassRef}
    (h : ∀ base ∈ bases, ∀ entry ∈ (vm.mroOf base).dropLast,
      (vm.classData entry).map (·.name) ≠ some "object") : vm.ObjectLast bases := by
  intro base hbase before entry after hsplit hname
  by_contra hafter
  refine h base hbase entry ?_ hname
  rw [hsplit, List.dropLast_append_of_ne_nil (by simp), List.dropLast_cons_of_ne_nil hafter]
  simp

/-- What there is to check of an action, as one condition. -/
lemma known_keepsOrders {vm : Vm} {action : ClassAction} (fuel : ℕ) {merged : List ClassRef}
    (h : (∀ base ∈ action.bases, (vm.classData base).isSome ∧
        ∀ entry ∈ (vm.mroOf base).dropLast, (vm.classData entry).map (·.name) ≠ some "object") ∧
      ((action.bases.map vm.mroOf ++ [action.bases]).map List.length).sum < fuel ∧
      mergeMro fuel (action.bases.map vm.mroOf ++ [action.bases]) = some merged ∧
      action.cls vm ∉ merged)
    (hassign : ∀ id bases, action = .assignBases id bases →
      id < vm.classes.length ∧ ∀ data ∈ vm.classes, .user id ∉ data.bases) :
    action.Known vm ∧ vm.KeepsOrders action := by
  obtain ⟨hbases, hfuel, hmerge, hcls⟩ := h
  refine ⟨⟨fun base hbase => (hbases base hbase).1, fun id bases h => (hassign id bases h).1⟩,
    fun _ => ⟨objectLast_of_dropLast fun base hbase => (hbases base hbase).2,
      ⟨_, linearizes_of_mergeMro fuel hfuel hmerge hcls⟩,
      fun id bases haction => .inl fun cls data hdata => ?_⟩⟩
  cases cls with
  | object =>
    obtain rfl := Option.some.inj hdata
    simp
  | syntheticException name =>
    obtain rfl := Option.some.inj hdata
    dsimp only
    split <;> simp
  | builtin base =>
    obtain rfl := Option.some.inj hdata
    cases base <;> simp [BuiltinType.ancestors]
  | user id' => exact (hassign id bases haction).2 data (List.mem_of_getElem? hdata)

/-- The machine after `class A(dict)`, `class B` and `class C(A, B)`. -/
def mixedBasesVm : Vm :=
  let vm := (Vm.initial.classValueFromModule "A" [.builtin .dict]).1
  let vm := (vm.classValueFromModule "B" []).1
  (vm.classValueFromModule "C" [.user 0, .user 1]).1

/-- The machine after `C.__bases__ = (B, A)`, too. -/
def swappedBasesVm : Vm :=
  mixedBasesVm.withBases 2 [.user 1, .user 0]
    [.user 2, .user 1, .user 0, .builtin .dict, .object]

lemma reaches_swappedBasesVm : Reaches Vm.KeepsOrders swappedBasesVm := by
  have hA := @known_keepsOrders Vm.initial (.create "A" [.builtin .dict]) 20
    [.builtin .dict, .object] (by decide) (fun _ _ h => by cases h)
  have hB := @known_keepsOrders (Vm.initial.classValueFromModule "A" [.builtin .dict]).1
    (.create "B" []) 20 [.object] (by decide) (fun _ _ h => by cases h)
  have hC := @known_keepsOrders
    ((Vm.initial.classValueFromModule "A" [.builtin .dict]).1.classValueFromModule "B" []).1
    (.create "C" [.user 0, .user 1]) 20 [.user 0, .builtin .dict, .user 1, .object]
    (by decide) (fun _ _ h => by cases h)
  have hchange : 2 < mixedBasesVm.classes.length ∧
      ∀ data ∈ mixedBasesVm.classes, ClassRef.user 2 ∉ data.bases := by
    decide
  have hswap := @known_keepsOrders mixedBasesVm (.assignBases 2 [.user 1, .user 0]) 20
    [.user 1, .user 0, .builtin .dict, .object] (by decide) (fun id bases h => by
      obtain ⟨rfl, -⟩ := ClassAction.assignBases.inj h
      exact hchange)
  refine .step (.step (.step (.step .initial hA.1 hA.2
    (perform_create _ "A" [.builtin .dict] (by decide))) hB.1 hB.2
    (perform_create _ "B" [] (by decide))) hC.1 hC.2
    (perform_create _ "C" [.user 0, .user 1] (by decide))) hswap.1 hswap.2
    ((perform_assignBases _ 2 [.user 1, .user 0] (by decide)).trans (congrArg _ ?_))
  exact congrArg _ (by decide)

/-- `A` with its base `dict` keeps its order below `C`. -/
theorem mroOf_sublist_of_reaches_swappedBasesVm :
    (swappedBasesVm.mroOf (.user 0)).Sublist (swappedBasesVm.mroOf (.user 2)) ∧
      .user 2 ∉ swappedBasesVm.mroOf (.user 0) := by
  obtain ⟨hsublist, hsame⟩ := mroOf_sublist_of_reaches reaches_swappedBasesVm
    (show ClassRef.user 0 ∈ swappedBasesVm.mroOf (.user 2) by decide)
  exact ⟨hsublist, fun h => absurd (hsame h) (by decide)⟩

/-- After `class A(dict)`, `class B`, `class C(A, B)` and `C.__bases__ = (B, A)` the classes have
their linearizations, and a base that is given twice is an error. -/
theorem linearized_of_reaches_swappedBasesVm :
    swappedBasesVm.classes = [⟨"A", [.builtin .dict], [.user 0, .builtin .dict, .object]⟩,
      ⟨"B", [.object], [.user 1, .object]⟩,
      ⟨"C", [.user 1, .user 0], [.user 2, .user 1, .user 0, .builtin .dict, .object]⟩] ∧
    swappedBasesVm.Linearized ∧
    ∃ message, swappedBasesVm.perform (.create "D" [.user 0, .user 0]) = .error message := by
  obtain ⟨hlinearized, herror⟩ := linearized_of_reaches reaches_swappedBasesVm
  refine ⟨by decide, hlinearized,
    herror _ (fun hnodup => absurd hnodup (by decide)) ?_⟩
  rintro ⟨order, merged, hmerged, -⟩
  have hmerge := (mergeMro_eq_some_iff (show _ < 20 by decide)).2 hmerged
  rw [show mergeMro 20 _ = none by decide] at hmerge
  cases hmerge

/-- The machine after `class A`, `class B`, `class X(A, B)` and `class Y(B, A)`. -/
def oppositeBasesVm : Vm :=
  let vm := (Vm.initial.classValueFromModule "A" []).1
  let vm := (vm.classValueFromModule "B" []).1
  let vm := (vm.classValueFromModule "X" [.user 0, .user 1]).1
  (vm.classValueFromModule "Y" [.user 1, .user 0]).1

lemma reaches_oppositeBasesVm : Reaches (fun _ _ => True) oppositeBasesVm := by
  refine .step (.step (.step (.step .initial ?_ trivial (perform_create _ "A" [] (by decide))) ?_
    trivial (perform_create _ "B" [] (by decide))) ?_ trivial
    (perform_create _ "X" [.user 0, .user 1] (by decide))) ?_ trivial
    (perform_create _ "Y" [.user 1, .user 0] (by decide))
  all_goals exact ⟨by decide, nofun⟩

/-- `class Z(X, Y)` is no error, although the two bases have no common order, and leaves a class
without an order. -/
theorem not_linearized_oppositeBases :
    Reaches (fun _ _ => True) oppositeBasesVm ∧
      (ClassAction.create "Z" [.user 2, .user 3]).Known oppositeBasesVm ∧
      ¬ oppositeBasesVm.HasOrder (.create "Z" [.user 2, .user 3]) ∧
      ∃ vm, oppositeBasesVm.perform (.create "Z" [.user 2, .user 3]) = .ok vm ∧
        ¬ vm.Linearized := by
  refine ⟨reaches_oppositeBasesVm, ⟨by decide +kernel, nofun⟩, ?_, _,
    perform_create _ "Z" [.user 2, .user 3] (by decide), fun h => ?_⟩
  · rintro ⟨order, merged, hmerged, -⟩
    have hmerge := (mergeMro_eq_some_iff (show _ < 20 by decide +kernel)).2 hmerged
    rw [show mergeMro 20 _ = none by decide +kernel] at hmerge
    cases hmerge
  · have hdata : (oppositeBasesVm.classValueFromModule "Z" [.user 2, .user 3]).1.classData
        (.user 4) = some ⟨"Z", [.user 2, .user 3], []⟩ := by
      decide +kernel
    exact (h _ _ hdata).ne_nil rfl

end Pyrs
