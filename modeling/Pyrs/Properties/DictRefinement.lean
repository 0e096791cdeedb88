import Pyrs.Library.Association
import Pyrs.Properties.DictTable
import Pyrs.Properties.SetRefinement

/-!
# Dict backends are insertion-ordered association lists

A run of operations on a `DictBackend` refines the run on the association list of its entries, as
long as each removal of an entry without a hash leaves no entry after it with one, or has the table
rebuilt.  The slots are not adjusted after such a removal.
-/

namespace Pyrs

open Association

lemma Keys.Lawful.agrees {α : Type} {keys : Keys α} (hlawful : keys.Lawful) :
    Agrees keys.valueKeyEqual :=
  ⟨hlawful.symm, hlawful.trans⟩

/-! ## Operations -/

inductive DictOp (α β : Type)
  | insert (key : α) (value : β)
  | insertWithHash (key : α) (value : β) (hash : UInt64)
  | remove (index : ℕ)
  | removeKey (key : α)
  | retain (keep : ℕ → α × β → Bool)
  | clear

namespace DictOp

variable {α β : Type} (keys : Keys α)

/-- The table after an operation, and the entry that it returns. -/
def apply (self : DictBackend α β) : DictOp α β → Option (DictBackend α β × Option (α × β))
  | .insert key value => (self.insert keys key value).map fun after => (after, none)
  | .insertWithHash key value hash =>
    (self.insertWithHash keys key value hash).map fun after => (after, none)
  | .remove index => (self.remove keys index).map fun result => (result.1, some result.2)
  | .removeKey key => self.removeKey keys key
  | .retain keep => (self.retain keys keep).map fun after => (after, none)
  | .clear => some (self.clear, none)

/-- A given hash is the lookup hash of the key, and a removal by position names an entry. -/
def Legal (self : DictBackend α β) : DictOp α β → Prop
  | .insertWithHash key _ hash => keys.valueLookupHash key = some hash
  | .remove index => index < self.entries.length
  | _ => True

/-- What an operation does to the association list. -/
def spec (entries : List (α × β)) : DictOp α β → List (α × β)
  | .insert key value => store keys.valueKeyEqual key value entries
  | .insertWithHash key value _ => store keys.valueKeyEqual key value entries
  | .remove index => entries.eraseIdx index
  | .removeKey key => delete keys.valueKeyEqual key entries
  | .retain keep => (entries.zipIdx.filter fun pair => keep pair.2 pair.1).map Prod.fst
  | .clear => []

/-- What an operation returns: a removal, the entry that it removes. -/
def answer (entries : List (α × β)) : DictOp α β → Option (α × β)
  | .remove index => entries[index]?
  | .removeKey key => entries.find? fun entry => keys.valueKeyEqual entry.1 key
  | _ => none

end DictOp

namespace DictBackend

variable {α β : Type} {keys : Keys α} {self : DictBackend α β}

/-- An entry whose removal keeps the table right: its key has a hash, or no key after it has one, or
the table is rebuilt. -/
def Removable (keys : Keys α) (self : DictBackend α β) (index : ℕ) : Prop :=
  (∀ entry, self.entries[index]? = some entry → (keys.valueLookupHash entry.1).isSome) ∨
    (∀ later entry, index < later → self.entries[later]? = some entry →
      keys.valueLookupHash entry.1 = none) ∨
    self.Rebuilds

end DictBackend

/-- The entry that an operation removes by its position or its key is removable. -/
def DictOp.Safe {α β : Type} (keys : Keys α) (self : DictBackend α β) : DictOp α β → Prop
  | .remove index => self.Removable keys index
  | .removeKey key => ∀ index entry, self.entries[index]? = some entry →
      keys.valueKeyEqual entry.1 key = true → self.Removable keys index
  | _ => True

/-- A backend that stands for an association list without two equal keys, and answers as it. -/
structure DictBackend.Represents {α β : Type} (keys : Keys α) (dict : DictBackend α β)
    (list : List (α × β)) : Prop where
  entries_eq : dict.entries = list
  distinct : Distinct keys.valueKeyEqual list
  find : ∀ key, dict.find keys key = some (lookup keys.valueKeyEqual list key)
  containsKey : ∀ key,
    dict.containsKey keys key = some (lookup keys.valueKeyEqual list key).isSome

/-- Every state that legal operations reach represents the association list that they make, no
operation panics, and a removal returns the entry that it removes; as long as the operations meet
a condition. -/
def DictBackend.RefinesWhile {α β : Type} (keys : Keys α)
    (condition : DictBackend α β → DictOp α β → Prop) :
    List (DictOp α β) → DictBackend α β → List (α × β) → Prop
  | [], dict, list => dict.Represents keys list
  | op :: ops, dict, list => dict.Represents keys list ∧
    (op.Legal keys dict → condition dict op →
      ∃ after, op.apply keys dict = some (after, op.answer keys list) ∧
        after.RefinesWhile keys condition ops (op.spec keys list))

namespace DictBackend

variable {α β : Type} {keys : Keys α} {self : DictBackend α β}

/-! ## Lookup -/

lemma positionOf_spec (key : α) :
    (∀ index, self.positionOf keys key = some index → ∃ pair, self.entries[index]? = some pair ∧
      keys.valueKeyEqual pair.1 key = true) ∧
    (self.positionOf keys key = none →
      ∀ pair ∈ self.entries, keys.valueKeyEqual pair.1 key = false) := by
  constructor
  · intro index hindex
    obtain ⟨hlt, hequal, -⟩ := List.findIdx?_eq_some_iff_getElem.1 hindex
    exact ⟨_, List.getElem?_eq_getElem hlt, hequal⟩
  · intro hnone pair hpair
    exact List.findIdx?_eq_none_iff.1 hnone pair hpair

/-- A lookup under a hash finds an entry with the hash and the key; where there are no slots, one
with the key. -/
lemma findIndexWithHash_spec (h : Table keys self) (key : α) (hash : UInt64) :
    ∃ found, self.findIndexWithHash keys key hash = some found ∧
      (∀ index, found = some index → ∃ pair, self.entries[index]? = some pair ∧
        keys.valueKeyEqual pair.1 key = true) ∧
      (found = none → ∀ index pair, self.entries[index]? = some pair →
        self.hashAt index = some hash → keys.valueKeyEqual pair.1 key = false) := by
  by_cases hne : self.slots = []
  · obtain ⟨hsome, hnone⟩ := @positionOf_spec _ _ keys self key
    refine ⟨self.positionOf keys key, ?_, hsome, fun hmissing index pair hpair _ =>
      hnone hmissing pair (List.mem_of_getElem? hpair)⟩
    rw [findIndexWithHash, hne]
    rfl
  · obtain ⟨k, hk⟩ := h.size.resolve_left hne
    obtain ⟨result, hlookup, hfinds⟩ := h.lookupSlot_spec hk key hash
    have hisEmpty : self.slots.isEmpty = false := by simpa using hne
    cases result with
    | found entry =>
      obtain ⟨-, pair, hpair, hequal⟩ := hfinds
      refine ⟨some entry, ?_, ?_, fun hfalse => nomatch hfalse⟩
      · simp [findIndexWithHash, hisEmpty, hlookup]
      · rintro index heq
        obtain rfl := Option.some.inj heq
        exact ⟨pair, hpair, hequal⟩
    | vacant slot =>
      refine ⟨none, ?_, fun index hfalse => (nomatch hfalse),
        fun _ index pair hpair hhash => hfinds.2 index pair hhash hpair⟩
      simp [findIndexWithHash, hisEmpty, hlookup]

/-! ## The invariant of a run -/

/-- A table whose entries have their lookup hashes, and no key twice. -/
structure Keyed (keys : Keys α) (dict : DictBackend α β) : Prop extends Table keys dict where
  hashes_eq : dict.entryHashes = dict.entries.map fun entry => keys.valueLookupHash entry.1
  distinct : Distinct keys.valueKeyEqual dict.entries

/-- A position holds the only entry with a key; where there is none, no entry has it. -/
def Locates (keys : Keys α) (entries : List (α × β)) (key : α) : Option ℕ → Prop
  | some index => ∃ pair, entries[index]? = some pair ∧ keys.valueKeyEqual pair.1 key = true
  | none => ∀ pair ∈ entries, keys.valueKeyEqual pair.1 key = false

lemma Keyed.hashAt_eq (h : Keyed keys self) {index : ℕ} {pair : α × β}
    (hpair : self.entries[index]? = some pair) :
    self.hashAt index = keys.valueLookupHash pair.1 := by
  rw [hashAt, h.hashes_eq, List.getElem?_map, hpair]
  rfl

/-- The entry with a key is stored with the hash of the key. -/
lemma Keyed.hashAt_of_equal (h : Keyed keys self) (hlawful : keys.Lawful) {key : α}
    {hash : UInt64} (hhash : keys.valueLookupHash key = some hash) (index : ℕ) (pair : α × β)
    (hpair : self.entries[index]? = some pair) (hequal : keys.valueKeyEqual pair.1 key = true) :
    self.hashAt index = some hash := by
  rw [h.hashAt_eq hpair, hlawful.hash_eq _ _ hequal, hhash]

lemma keyed_empty : Keyed keys (empty : DictBackend α β) :=
  ⟨table_empty, rfl, List.Pairwise.nil⟩

lemma Keyed.findIndex_spec (hlawful : keys.Lawful) (h : Keyed keys self) (key : α) :
    ∃ found, self.findIndex keys key = some found ∧ Locates keys self.entries key found := by
  cases hhash : keys.valueLookupHash key with
  | none =>
    obtain ⟨hsome, hnone⟩ := @positionOf_spec _ _ keys self key
    refine ⟨self.positionOf keys key, by rw [findIndex, hhash], ?_⟩
    cases hposition : self.positionOf keys key with
    | none => exact hnone hposition
    | some index => exact hsome index hposition
  | some hash =>
    obtain ⟨found, hfind, hsome, hnone⟩ := findIndexWithHash_spec h.toTable key hash
    refine ⟨found, by rw [findIndex, hhash]; exact hfind, ?_⟩
    cases found with
    | some index => exact hsome index rfl
    | none =>
      exact forall_key_ne (h.hashAt_of_equal hlawful hhash)
        fun index pair hat hindex => hnone rfl index pair hindex hat

lemma Keyed.represents (hlawful : keys.Lawful) (h : Keyed keys self) :
    self.Represents keys self.entries := by
  have hfound : ∀ key, self.find keys key = some (lookup keys.valueKeyEqual self.entries key) ∧
      self.containsKey keys key = some (lookup keys.valueKeyEqual self.entries key).isSome := by
    intro key
    obtain ⟨found, hfind, hlocates⟩ := h.findIndex_spec hlawful key
    rw [find, containsKey, hfind]
    cases found with
    | none =>
      rw [lookup_eq_none hlocates]
      exact ⟨rfl, rfl⟩
    | some index =>
      obtain ⟨pair, hpair, hequal⟩ := hlocates
      rw [lookup_eq_some hlawful.agrees h.distinct hpair hequal]
      refine ⟨?_, rfl⟩
      simp [valueAt, hpair]
  exact ⟨rfl, h.distinct, fun key => (hfound key).1, fun key => (hfound key).2⟩

/-! ## Steps -/

lemma Keyed.setEntry (h : Keyed keys self) {after : DictBackend α β} {index : ℕ} {pair : α × β}
    {value : β} (hpair : self.entries[index]? = some pair) (htable : Table keys after)
    (hentries : after.entries = self.entries.set index (pair.1, value))
    (hhashes : after.entryHashes = self.entryHashes) : Keyed keys after := by
  have hkeys : after.entries.map Prod.fst = self.entries.map Prod.fst := by
    rw [hentries, map_fst_set hpair]
  have hmap : ∀ entries : List (α × β), entries.map (fun entry => keys.valueLookupHash entry.1) =
      (entries.map Prod.fst).map keys.valueLookupHash := fun entries => by
    rw [List.map_map]
    rfl
  refine ⟨htable, ?_, h.distinct.of_map_fst hkeys⟩
  rw [hhashes, h.hashes_eq, hmap, hmap, hkeys]

lemma Keyed.appendEntry (h : Keyed keys self) {after : DictBackend α β} {key : α} {value : β}
    {hash : Option UInt64} (hhash : keys.valueLookupHash key = hash)
    (hnew : ∀ pair ∈ self.entries, keys.valueKeyEqual pair.1 key = false)
    (htable : Table keys after) (hentries : after.entries = self.entries ++ [(key, value)])
    (hhashes : after.entryHashes = self.entryHashes ++ [hash]) : Keyed keys after := by
  refine ⟨htable, ?_, ?_⟩
  · rw [hhashes, hentries, h.hashes_eq, List.map_append, ← hhash]
    rfl
  · rw [hentries]
    exact h.distinct.append hnew value

lemma Keyed.insertWithHash_spec (hlawful : keys.Lawful) (h : Keyed keys self) {key : α}
    {hash : UInt64} (hhash : keys.valueLookupHash key = some hash) (value : β) :
    ∃ after, self.insertWithHash keys key value hash = some after ∧ Keyed keys after ∧
      after.entries = store keys.valueKeyEqual key value self.entries := by
  obtain ⟨after, hinsert, htable, hstored⟩ :=
    DictBackend.insertWithHash_spec h.toTable key value hash
  refine ⟨after, hinsert, ?_⟩
  cases hstored with
  | update entry pair _ hpair hequal hentries hhashes =>
    refine ⟨h.setEntry hpair htable hentries hhashes, ?_⟩
    rw [hentries, store_eq_set hlawful.agrees h.distinct hpair hequal]
  | append hnone hentries hhashes =>
    have hnew : ∀ pair ∈ self.entries, keys.valueKeyEqual pair.1 key = false :=
      forall_key_ne (h.hashAt_of_equal hlawful hhash) hnone
    refine ⟨h.appendEntry hhash hnew htable hentries hhashes, ?_⟩
    rw [hentries, store_eq_append hnew]

lemma Keyed.insert_spec (hlawful : keys.Lawful) (h : Keyed keys self) (key : α) (value : β) :
    ∃ after, self.insert keys key value = some after ∧ Keyed keys after ∧
      after.entries = store keys.valueKeyEqual key value self.entries := by
  cases hhash : keys.valueLookupHash key with
  | some hash =>
    obtain ⟨after, hinsert, hspec⟩ := h.insertWithHash_spec hlawful hhash value
    exact ⟨after, by rw [insert, hhash]; exact hinsert, hspec⟩
  | none =>
    obtain ⟨found, hfind, hlocates⟩ := h.findIndex_spec hlawful key
    rw [insert, hhash]
    simp only [hfind, Option.bind_eq_bind, Option.bind_some]
    cases found with
    | some index =>
      obtain ⟨pair, hpair, hequal⟩ := hlocates
      obtain ⟨after, hset, htable, hentries, hhashes, -⟩ :=
        setValueAt_spec h.toTable hpair value
      refine ⟨after, hset, h.setEntry hpair htable hentries hhashes, ?_⟩
      rw [hentries, store_eq_set hlawful.agrees h.distinct hpair hequal]
    | none =>
      refine ⟨_, rfl, h.appendEntry hhash hlocates (h.toTable.pushUnhashed hhash value) rfl rfl, ?_⟩
      exact (store_eq_append hlocates value).symm

lemma Keyed.storedRemovable (h : Keyed keys self) {index : ℕ}
    (hlt : index < self.entries.length) (hremovable : self.Removable keys index) :
    self.StoredRemovable index := by
  obtain hhashed | hlater | hrebuilds := hremovable
  · have hpair := List.getElem?_eq_getElem hlt
    refine .inl ?_
    rw [h.hashAt_eq hpair]
    exact hhashed _ hpair
  · refine .inr (.inl fun later hlt => ?_)
    cases hpair : self.entries[later]? with
    | none =>
      rw [hashAt, h.hashes_eq, List.getElem?_map, hpair]
      rfl
    | some pair =>
      rw [h.hashAt_eq hpair]
      exact hlater later pair hlt hpair
  · exact .inr (.inr hrebuilds)

lemma Keyed.remove_spec (h : Keyed keys self) {index : ℕ} {removed : α × β}
    (hremoved : self.entries[index]? = some removed) (hremovable : self.Removable keys index) :
    ∃ after, self.remove keys index = some (after, removed) ∧ Keyed keys after ∧
      after.entries = self.entries.eraseIdx index := by
  have hlt := (List.getElem?_eq_some_iff.1 hremoved).1
  obtain ⟨after, hremove, htable, hentries, hhashes⟩ :=
    DictBackend.remove_spec h.toTable hremoved
      (h.toTable.keeps hlt (h.storedRemovable hlt hremovable))
  refine ⟨after, hremove, ⟨htable, ?_, ?_⟩, hentries⟩
  · rw [hhashes, hentries, h.hashes_eq]
    refine List.ext_getElem? fun entry => ?_
    simp only [List.getElem?_eraseIdx, List.getElem?_map]
    split <;> rfl
  · rw [hentries]
    exact h.distinct.sublist (List.eraseIdx_sublist _ _)

lemma Keyed.removeKey_spec (hlawful : keys.Lawful) (h : Keyed keys self) (key : α)
    (hsafe : ∀ index entry, self.entries[index]? = some entry →
      keys.valueKeyEqual entry.1 key = true → self.Removable keys index) :
    ∃ after, self.removeKey keys key =
        some (after, self.entries.find? fun entry => keys.valueKeyEqual entry.1 key) ∧
      Keyed keys after ∧ after.entries = delete keys.valueKeyEqual key self.entries := by
  obtain ⟨found, hfind, hlocates⟩ := h.findIndex_spec hlawful key
  rw [removeKey, hfind]
  cases found with
  | none =>
    have hnone : (self.entries.find? fun entry => keys.valueKeyEqual entry.1 key) = none :=
      List.find?_eq_none.2 fun entry hentry => by
        rw [hlocates entry hentry]; exact Bool.false_ne_true
    refine ⟨self, by rw [hnone]; rfl, h, (delete_eq_self hlocates).symm⟩
  | some index =>
    obtain ⟨pair, hpair, hequal⟩ := hlocates
    obtain ⟨after, hremove, hafter, hentries⟩ := h.remove_spec hpair (hsafe index pair hpair hequal)
    have hagrees := hlawful.agrees
    refine ⟨after, ?_, hafter, ?_⟩
    · rw [find?_eq_some hagrees h.distinct hpair hequal]
      simp [removeFound, hremove]
    · rw [hentries, delete_eq_eraseIdx hagrees h.distinct hpair hequal]

/-- The entries that stay, with their hashes, are those for which the predicate holds. -/
lemma Keyed.kept_eq (h : Keyed keys self) (keep : ℕ → α × β → Bool) :
    ((self.entries.zip self.entryHashes).zipIdx.filter fun pair => keep pair.2 pair.1.1).map
        Prod.fst =
      ((self.entries.zipIdx.filter fun pair => keep pair.2 pair.1).map Prod.fst).map
        fun entry => (entry, keys.valueLookupHash entry.1) := by
  have hzip : self.entries.zip self.entryHashes =
      self.entries.map fun entry => (entry, keys.valueLookupHash entry.1) := by
    rw [h.hashes_eq]
    exact List.map_prod_left_eq_zip.symm
  rw [hzip, List.zipIdx_map, List.filter_map, List.map_map, List.map_map]
  rfl

lemma Keyed.retain_spec (h : Keyed keys self) (keep : ℕ → α × β → Bool) :
    ∃ after, self.retain keys keep = some after ∧ Keyed keys after ∧
      after.entries = (self.entries.zipIdx.filter fun pair => keep pair.2 pair.1).map Prod.fst := by
  set kept := (self.entries.zipIdx.filter fun pair => keep pair.2 pair.1).map Prod.fst with hkept
  set before : DictBackend α β :=
    { self with entries := kept, entryHashes := kept.map fun entry => keys.valueLookupHash entry.1 }
    with hbefore
  have hretain : self.retain keys keep = before.rebuildSlots keys := by
    have hfst : (kept.map fun entry => (entry, keys.valueLookupHash entry.1)).map Prod.fst =
        kept := by
      rw [List.map_map]
      exact List.map_id _
    have hsnd : (kept.map fun entry => (entry, keys.valueLookupHash entry.1)).map Prod.snd =
        kept.map fun entry => keys.valueLookupHash entry.1 := by
      rw [List.map_map]
      rfl
    rw [retain, h.kept_eq keep, ← hkept]
    simp only [hfst, hsnd, hbefore]
  have hlength : before.entryHashes.length = before.entries.length := List.length_map _
  obtain ⟨after, hrebuild, htable, hentries, hhashes⟩ :=
    @rebuildSlots_spec _ _ keys before hlength fun entry pair hpair hnone => by
      rw [hashAt, hbefore, List.getElem?_map, hpair] at hnone
      exact hnone
  have hsublist : kept.Sublist self.entries := by
    have hmap := (List.filter_sublist (p := fun pair => keep pair.2 pair.1)
      (l := self.entries.zipIdx)).map Prod.fst
    rwa [List.zipIdx_map_fst] at hmap
  refine ⟨after, hretain.trans hrebuild, ⟨htable, ?_, ?_⟩, hentries⟩
  · rw [hhashes, hentries]
  · rw [hentries]
    exact h.distinct.sublist hsublist

/-! ## Runs -/

lemma Keyed.apply_spec (hlawful : keys.Lawful) (h : Keyed keys self) (op : DictOp α β)
    (hlegal : op.Legal keys self) (hsafe : op.Safe keys self) :
    ∃ after, op.apply keys self = some (after, op.answer keys self.entries) ∧ Keyed keys after ∧
      after.entries = op.spec keys self.entries := by
  cases op with
  | insert key value =>
    obtain ⟨after, hinsert, hspec⟩ := h.insert_spec hlawful key value
    exact ⟨after, by rw [DictOp.apply, hinsert]; rfl, hspec⟩
  | insertWithHash key value hash =>
    obtain ⟨after, hinsert, hspec⟩ := h.insertWithHash_spec hlawful hlegal value
    exact ⟨after, by rw [DictOp.apply, hinsert]; rfl, hspec⟩
  | remove index =>
    have hremoved := List.getElem?_eq_getElem (show index < self.entries.length from hlegal)
    obtain ⟨after, hremove, hspec⟩ := h.remove_spec hremoved hsafe
    exact ⟨after, by rw [DictOp.apply, hremove, DictOp.answer, hremoved]; rfl, hspec⟩
  | removeKey key => exact h.removeKey_spec hlawful key hsafe
  | retain keep =>
    obtain ⟨after, hretain, hspec⟩ := h.retain_spec keep
    exact ⟨after, by rw [DictOp.apply, hretain]; rfl, hspec⟩
  | clear => exact ⟨empty, rfl, keyed_empty, rfl⟩

lemma Keyed.refinesWhile (hlawful : keys.Lawful) (ops : List (DictOp α β))
    {dict : DictBackend α β} (h : Keyed keys dict) :
    dict.RefinesWhile keys (fun dict op => op.Safe keys dict) ops dict.entries := by
  induction ops generalizing dict with
  | nil => exact h.represents hlawful
  | cons op ops ih =>
    refine ⟨h.represents hlawful, fun hlegal hsafe => ?_⟩
    obtain ⟨after, happly, hafter, hentries⟩ := h.apply_spec hlawful op hlegal hsafe
    refine ⟨after, happly, ?_⟩
    rw [← hentries]
    exact ih hafter

lemma new_spec (hlawful : keys.Lawful) (initial : List (α × β)) :
    ∃ dict, new keys initial = some dict ∧ Keyed keys dict ∧ dict.entries =
      initial.foldl (fun list entry => store keys.valueKeyEqual entry.1 entry.2 list) [] := by
  induction initial using List.reverseRecOn with
  | nil => exact ⟨empty, rfl, keyed_empty, rfl⟩
  | append_singleton initial entry ih =>
    obtain ⟨dict, hnew, hkeyed, hentries⟩ := ih
    obtain ⟨after, hinsert, hafter, hstored⟩ := hkeyed.insert_spec hlawful entry.1 entry.2
    refine ⟨after, ?_, hafter, ?_⟩
    · rw [new] at hnew ⊢
      rw [List.foldlM_append, hnew]
      simp [hinsert]
    · rw [List.foldl_append, ← hentries]
      exact hstored

/-- An empty dict backend refines the empty association list, as long as no removal of an entry
without a hash leaves a later one with a hash in a table that is not rebuilt. -/
theorem new_refines_while (hlawful : keys.Lawful) (ops : List (DictOp α β)) :
    ∃ dict, new keys ([] : List (α × β)) = some dict ∧
      dict.RefinesWhile keys (fun dict op => op.Safe keys dict) ops [] :=
  ⟨empty, rfl, keyed_empty.refinesWhile hlawful ops⟩

/-- Numbers of which zero has no hash and the others share one. -/
def unhashedZero : Keys ℕ := ⟨fun a b => a == b, fun a => if a = 0 then none else some 0⟩

lemma lawful_unhashedZero : unhashedZero.Lawful := by
  refine ⟨fun a => beq_self_eq_true a, fun a b h => ?_, fun a b c hab hbc => ?_, fun a b h => ?_⟩
  · rw [eq_of_beq h]
    exact beq_self_eq_true b
  · rw [eq_of_beq hab]
    exact hbc
  · rw [eq_of_beq h]

theorem new_refines_while_unhashedZero :
    ∃ dict, new unhashedZero ([] : List (ℕ × ℕ)) = some dict ∧
      dict.RefinesWhile unhashedZero (fun dict op => op.Safe unhashedZero dict)
        [.insert 1 10, .insertWithHash 2 20 0, .insert 0 30, .remove 0, .removeKey 0,
          .retain fun _ entry => entry.2 < 20, .clear] [] :=
  new_refines_while lawful_unhashedZero _

/-- The first entry has no hash; once it is removed, the slot of the other leads past the end. -/
theorem remove_unhashed_not_refines :
    unhashedZero.Lawful ∧ ¬∃ dict, new unhashedZero ([] : List (ℕ × ℕ)) = some dict ∧
      dict.RefinesWhile unhashedZero (fun _ _ => True)
        [.insert 0 10, .insert 1 11, .remove 0] [] := by
  refine ⟨lawful_unhashedZero, ?_⟩
  rintro ⟨dict, hnew, -, hrun⟩
  obtain rfl := Option.some.inj hnew
  obtain ⟨first, hfirst, -, hrun⟩ := hrun trivial trivial
  obtain rfl := congrArg Prod.fst (Option.some.inj hfirst)
  obtain ⟨second, hsecond, -, hrun⟩ := hrun trivial trivial
  obtain rfl := congrArg Prod.fst (Option.some.inj hsecond)
  obtain ⟨third, hthird, hrepresents⟩ := hrun (by decide : (0 : ℕ) < 2) trivial
  obtain rfl := congrArg Prod.fst (Option.some.inj hthird)
  have hfind := hrepresents.find 1
  revert hfind
  decide

end DictBackend

end Pyrs
