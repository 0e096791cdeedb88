import Pyrs.Model.DictObjects
import Pyrs.Properties.DictRefinement

/-!
# One dict under two hashes

The entries of a `DictObject` are stored under the hash of the API that stored them.  Each call
through either API acts as on the association list of the entries, as long as a native store finds
a present key under its lookup hash and a removal keeps the table right; two dicts compare equal
when their entries are, as long as the entries of the second are stored under their lookup hashes.
-/

namespace Pyrs

open Association

/-- The runtime equality is that of the keys, and equal keys have equal runtime hashes. -/
structure RuntimeKeys.Lawful {α : Type} (keys : RuntimeKeys α) : Prop where
  lawful : keys.toKeys.Lawful
  compareEq : ∀ a b, keys.compareEqRuntime a b = keys.valueKeyEqual a b
  hash_eq : ∀ a b, keys.valueKeyEqual a b = true →
    keys.hashValueRuntime a = keys.hashValueRuntime b

namespace DictCall

variable {α β : Type} (keys : RuntimeKeys α)

/-- A call leaves the dict as it should: a native store of a present key finds it under its lookup
hash, a removed entry keeps the table right, and the runtime API, which compares the key that it
found with itself, finds it equal or stores under the same hash again. -/
def Safe (self : DictObject α β) (call : DictCall α β) : Prop :=
  ∀ (index : ℕ) (entry : α × β), self.entries[index]? = some entry → match call with
    | .setValue key _ => keys.valueKeyEqual entry.1 key = true →
      self.backend.hashAt index = keys.valueLookupHash key
    | .removeValue key => keys.valueKeyEqual entry.1 key = true →
      self.backend.StoredRemovable index
    | .setValueCheckedRuntime key _ => keys.valueKeyEqual entry.1 key = true →
      (keys.hashValueRuntime key).isSome → keys.eq entry.1 entry.1 = true ∨
        self.backend.hashAt index = keys.hashValueRuntime key
    | .removeValueRuntime key => keys.valueKeyEqual entry.1 key = true →
      (keys.hashValueRuntime key).isSome → keys.eq entry.1 entry.1 = true ∧
        self.backend.StoredRemovable index
    | _ => True

/-- What a call does to the association list; the runtime API raises for an unhashable key. -/
def spec (list : List (α × β)) : DictCall α β → List (α × β)
  | .setValue key value => store keys.valueKeyEqual key value list
  | .removeValue key => delete keys.valueKeyEqual key list
  | .setValueCheckedRuntime key value =>
    if (keys.hashValueRuntime key).isSome then store keys.valueKeyEqual key value list else list
  | .removeValueRuntime key =>
    if (keys.hashValueRuntime key).isSome then delete keys.valueKeyEqual key list else list
  | _ => list

def answer (list : List (α × β)) : DictCall α β → DictResult β
  | .getValue key | .removeValue key => .value (lookup keys.valueKeyEqual list key)
  | .setValue _ _ => .stored
  | .containsKeyChecked key =>
    if (keys.valueLookupHash key).isSome then
      .present (lookup keys.valueKeyEqual list key).isSome
    else .error
  | .getValueRuntime key | .removeValueRuntime key =>
    if (keys.hashValueRuntime key).isSome then .value (lookup keys.valueKeyEqual list key)
    else .error
  | .containsKeyCheckedRuntime key =>
    if (keys.hashValueRuntime key).isSome then
      .present (lookup keys.valueKeyEqual list key).isSome
    else .error
  | .setValueCheckedRuntime key _ =>
    if (keys.hashValueRuntime key).isSome then .stored else .error

end DictCall

namespace DictObject

variable {α β : Type} {keys : RuntimeKeys α} {self : DictObject α β}

/-- The dicts that safe calls make of a new one, with the association lists they stand for. -/
inductive Filled (keys : RuntimeKeys α) : DictObject α β → List (α × β) → Prop
  | new (initial : List (α × β)) (dict : DictObject α β)
      (hnew : DictObject.new keys initial = some dict) :
      Filled keys dict
        (initial.foldl (fun list entry => store keys.valueKeyEqual entry.1 entry.2 list) [])
  | call (before after : DictObject α β) (list : List (α × β)) (call : DictCall α β)
      (result : DictResult β) (hbefore : Filled keys before list) (hsafe : call.Safe keys before)
      (hcall : call.apply keys before = some (after, result)) :
      Filled keys after (call.spec keys list)

/-- The keys of the entries are found in another dict only under the hashes that lookups use. -/
def LooksUp (keys : RuntimeKeys α) (self other : DictObject α β) : Prop :=
  ∀ entry ∈ self.entries, ∀ (index : ℕ) (stored : α × β), other.entries[index]? = some stored →
    keys.valueKeyEqual stored.1 entry.1 = true →
      other.backend.hashAt index = keys.valueLookupHash entry.1

/-- As many entries, and the same value for each key. -/
def EqualEntries (keys : RuntimeKeys α) (valueEq : β → β → Bool) (list other : List (α × β)) :
    Prop :=
  list.length = other.length ∧ ∀ entry ∈ list, ∃ value,
    lookup keys.valueKeyEqual other entry.1 = some value ∧ valueEq value entry.2 = true

/-- What a run keeps: a table without equal keys, whose entries are stored under their runtime
hashes while no fallback is asked for. -/
structure Mixed (keys : RuntimeKeys α) (dict : DictObject α β) : Prop where
  table : DictBackend.Table keys.toKeys dict.backend
  distinct : Distinct keys.valueKeyEqual dict.entries
  runtime : dict.legacyHashFallback = false → ∀ (index : ℕ) (entry : α × β),
    dict.entries[index]? = some entry →
      dict.backend.hashAt index = keys.hashValueRuntime entry.1
  writable : dict.readonly = false

/-! ## Lookup -/

lemma candidateEntriesWithHash_spec (h : Mixed keys self) (hash : UInt64) :
    ∃ candidates, self.candidateEntriesWithHash keys hash = some candidates ∧
      (∀ candidate ∈ candidates, self.entries[candidate.1]? = some candidate.2) ∧
      ∀ (index : ℕ) (entry : α × β), self.entries[index]? = some entry →
        self.backend.hashAt index = some hash → (index, entry) ∈ candidates := by
  obtain ⟨indices, hindices, hsound, hcomplete⟩ := h.table.candidateIndicesForHash_spec hash
  have hmap : ∀ indices : List ℕ, (∀ index ∈ indices, index < self.entries.length) →
      ∃ candidates, (indices.mapM fun index =>
        self.backend.entries[index]?.map fun entry => (index, entry)) = some candidates ∧
        ∀ candidate, candidate ∈ candidates ↔
          candidate.1 ∈ indices ∧ self.entries[candidate.1]? = some candidate.2 := by
    intro indices hlt
    induction indices with
    | nil => exact ⟨[], rfl, fun candidate => by simp⟩
    | cons index indices ih =>
      obtain ⟨candidates, heq, hmem⟩ := ih fun other hother =>
        hlt other (List.mem_cons_of_mem _ hother)
      obtain ⟨entry, hentry⟩ : ∃ entry, self.entries[index]? = some entry :=
        ⟨_, List.getElem?_eq_getElem (hlt index List.mem_cons_self)⟩
      refine ⟨(index, entry) :: candidates, ?_, fun candidate => ?_⟩
      · have hget : self.backend.entries[index]? = some entry := hentry
        rw [List.mapM_cons, hget, heq]
        rfl
      · rw [List.mem_cons, hmem]
        constructor
        · rintro (rfl | ⟨hmem, hget⟩)
          · exact ⟨List.mem_cons_self, hentry⟩
          · exact ⟨List.mem_cons_of_mem _ hmem, hget⟩
        · rintro ⟨hmem, hget⟩
          obtain heq | hmem := List.mem_cons.1 hmem
          · refine .inl ?_
            rw [heq, hentry] at hget
            exact Prod.ext heq (Option.some.inj hget).symm
          · exact .inr ⟨hmem, hget⟩
  obtain ⟨candidates, heq, hmem⟩ := hmap indices hsound
  refine ⟨candidates, ?_, fun candidate hcandidate => ((hmem candidate).1 hcandidate).2,
    fun index entry hentry hhash => (hmem (index, entry)).2 ⟨hcomplete index hhash, hentry⟩⟩
  rw [candidateEntriesWithHash, hindices]
  exact heq

/-- The runtime lookup finds the entry with the key, where there is one. -/
lemma lookupRuntime_spec (hlawful : keys.Lawful) (h : Mixed keys self) {key : α} {hash : UInt64}
    (hhash : keys.hashValueRuntime key = some hash) :
    ∃ found, self.lookupRuntime keys key hash = some found ∧ match found with
      | some (index, pair) => self.entries[index]? = some pair ∧
        keys.valueKeyEqual pair.1 key = true
      | none => ∀ pair ∈ self.entries, keys.valueKeyEqual pair.1 key = false := by
  obtain ⟨candidates, hcandidates, hsound, hcomplete⟩ := candidateEntriesWithHash_spec h hash
  rw [lookupRuntime, hcandidates]
  simp only [Option.bind_eq_bind, Option.bind_some]
  cases hfirst : candidates.find? fun candidate => keys.compareEqRuntime candidate.2.1 key with
  | some found =>
    obtain ⟨index, pair⟩ := found
    have hequal := List.find?_some hfirst
    refine ⟨_, rfl, hsound _ (List.mem_of_find?_eq_some hfirst), ?_⟩
    rw [← hlawful.compareEq]
    exact hequal
  | none =>
    have hnone : ∀ candidate ∈ candidates, keys.valueKeyEqual candidate.2.1 key = false := by
      intro candidate hcandidate
      rw [← hlawful.compareEq]
      exact Bool.eq_false_iff.2 (List.find?_eq_none.1 hfirst candidate hcandidate)
    cases hfallback : self.legacyHashFallback with
    | false =>
      refine ⟨none, rfl, DictBackend.forall_key_ne (fun index pair hindex hequal => ?_)
        fun index pair hat hindex => hnone (index, pair) (hcomplete index pair hindex hat)⟩
      rw [h.runtime hfallback index pair hindex, hlawful.hash_eq _ _ hequal, hhash]
    | true =>
      simp only [Bool.not_true, Bool.false_eq_true, if_false]
      refine ⟨_, rfl, ?_⟩
      cases hrest : ((self.entries.zipIdx.map Prod.swap).filter fun entry =>
          entry.1 ∉ candidates.map Prod.fst).find? fun entry =>
            keys.compareEqRuntime entry.2.1 key with
      | some found =>
        obtain ⟨index, pair⟩ := found
        have hmem := (List.mem_filter.1 (List.mem_of_find?_eq_some hrest)).1
        obtain ⟨⟨other, position⟩, hzip, heq⟩ := List.mem_map.1 hmem
        obtain ⟨rfl, rfl⟩ := Prod.mk.inj heq
        have hequal := List.find?_some hrest
        refine ⟨List.mem_zipIdx_iff_getElem?.1 hzip, ?_⟩
        rw [← hlawful.compareEq]
        exact hequal
      | none =>
        intro pair hpair
        obtain ⟨index, hindex⟩ := List.mem_iff_getElem?.1 hpair
        by_cases htested : index ∈ candidates.map Prod.fst
        · obtain ⟨⟨position, other⟩, hcandidate, rfl⟩ := List.mem_map.1 htested
          have hother := hsound _ hcandidate
          obtain rfl := Option.some.inj (hother.symm.trans hindex)
          exact hnone _ hcandidate
        · rw [← hlawful.compareEq]
          refine Bool.eq_false_iff.2 (List.find?_eq_none.1 hrest (index, pair) ?_)
          refine List.mem_filter.2 ⟨List.mem_map.2 ⟨(pair, index), ?_, rfl⟩, by simpa using htested⟩
          exact List.mem_zipIdx_iff_getElem?.2 hindex

lemma lookupRuntime_answer (hlawful : keys.Lawful) (h : Mixed keys self) {key : α}
    {hash : UInt64} (hhash : keys.hashValueRuntime key = some hash) :
    ∃ found, self.lookupRuntime keys key hash = some found ∧
      lookup keys.valueKeyEqual self.entries key = found.map (·.2.2) := by
  obtain ⟨found, hlookup, hfound⟩ := lookupRuntime_spec hlawful h hhash
  refine ⟨found, hlookup, ?_⟩
  cases found with
  | none => exact lookup_eq_none hfound
  | some found => exact lookup_eq_some hlawful.lawful.agrees h.distinct hfound.1 hfound.2

/-- A native lookup under a hash may miss an entry, but finds no other. -/
lemma findIndexLinear_spec (self : DictObject α β) (key : α) :
    match self.dictFindIndexLinear keys key with
    | some index => ∃ pair, self.entries[index]? = some pair ∧
        keys.valueKeyEqual pair.1 key = true
    | none => ∀ pair ∈ self.entries, keys.valueKeyEqual pair.1 key = false := by
  obtain ⟨hsome, hnone⟩ :=
    @DictBackend.positionOf_spec _ _ keys.toKeys self.backend key
  cases hfind : self.dictFindIndexLinear keys key with
  | some index => exact hsome index hfind
  | none => exact hnone hfind

lemma dictGetValue_spec (hlawful : keys.Lawful) (h : Mixed keys self) (key : α) :
    self.dictGetValue keys key = some (lookup keys.valueKeyEqual self.entries key) := by
  have hlinear : (self.entries.find? fun entry => keys.valueKeyEqual entry.1 key).map Prod.snd =
      lookup keys.valueKeyEqual self.entries key := rfl
  rw [dictGetValue]
  cases hhash : keys.valueLookupHash key with
  | none => rfl
  | some hash =>
    obtain ⟨found, hfind, hsome, -⟩ := DictBackend.findIndexWithHash_spec h.table key hash
    simp only [findWithHash, DictBackend.findWithHash, hfind, Option.bind_eq_bind, Option.bind_some]
    cases found with
    | none => rfl
    | some index =>
      obtain ⟨pair, hpair, hequal⟩ := hsome index rfl
      rw [lookup_eq_some hlawful.lawful.agrees h.distinct hpair hequal]
      simp [DictBackend.valueAt, hpair]

/-- Whether a key is present, by the position that a search finds. -/
lemma isSome_lookup (hlawful : keys.Lawful) (h : Mixed keys self) {key : α} {found : Option ℕ}
    (hfound : match found with
      | some index => ∃ pair, self.entries[index]? = some pair ∧
          keys.valueKeyEqual pair.1 key = true
      | none => ∀ pair ∈ self.entries, keys.valueKeyEqual pair.1 key = false) :
    (lookup keys.valueKeyEqual self.entries key).isSome = found.isSome := by
  cases found with
  | none => rw [lookup_eq_none hfound]; rfl
  | some index =>
    obtain ⟨pair, hpair, hequal⟩ := hfound
    rw [lookup_eq_some hlawful.lawful.agrees h.distinct hpair hequal]
    rfl

lemma dictContainsKeyChecked_spec (hlawful : keys.Lawful) (h : Mixed keys self) {key : α}
    {hash : UInt64} (hhash : keys.valueLookupHash key = some hash) :
    self.dictContainsKeyChecked keys key =
      some (.present (lookup keys.valueKeyEqual self.entries key).isSome) := by
  obtain ⟨found, hfind, hsome, -⟩ := DictBackend.findIndexWithHash_spec h.table key hash
  rw [dictContainsKeyChecked, hhash]
  simp only [containsKeyWithHash, DictBackend.containsKeyWithHash, hfind, Option.map_some,
    Option.bind_eq_bind, Option.bind_some]
  cases found with
  | some index => rw [@isSome_lookup _ _ _ _ hlawful h _ (some index) (hsome index rfl)]; rfl
  | none => rw [isSome_lookup hlawful h (findIndexLinear_spec self key)]; rfl

/-! ## Stores -/

/-- A stored value in the place of another changes no hash. -/
lemma Mixed.setEntry (h : Mixed keys self) {after : DictObject α β} {index : ℕ} {pair : α × β}
    {value : β} (hpair : self.entries[index]? = some pair)
    (htable : DictBackend.Table keys.toKeys after.backend)
    (hentries : after.entries = self.entries.set index (pair.1, value))
    (hhashes : after.backend.entryHashes = self.backend.entryHashes)
    (hreadonly : after.readonly = self.readonly)
    (hfallback : after.legacyHashFallback = false → self.legacyHashFallback = false) :
    Mixed keys after := by
  have hkeys : after.entries.map Prod.fst = self.entries.map Prod.fst := by
    rw [hentries, map_fst_set hpair]
  refine ⟨htable, h.distinct.of_map_fst hkeys, fun hlegacy position entry hentry => ?_,
    hreadonly.trans h.writable⟩
  have hkey : (self.entries.map Prod.fst)[position]? = some entry.1 := by
    rw [← hkeys, List.getElem?_map, hentry]
    rfl
  rw [List.getElem?_map] at hkey
  obtain ⟨other, hother, hsame⟩ := Option.map_eq_some_iff.1 hkey
  rw [DictBackend.Table.hashAt_of_entryHashes hhashes, ← hsame]
  exact h.runtime (hfallback hlegacy) position other hother

/-- A new entry may be stored under any hash while the fallback stands, else under its runtime
hash. -/
lemma Mixed.appendEntry (h : Mixed keys self) {after : DictObject α β} {key : α} {value : β}
    {hash : Option UInt64}
    (hnew : ∀ pair ∈ self.entries, keys.valueKeyEqual pair.1 key = false)
    (htable : DictBackend.Table keys.toKeys after.backend)
    (hentries : after.entries = self.entries ++ [(key, value)])
    (hhashes : after.backend.entryHashes = self.backend.entryHashes ++ [hash])
    (hreadonly : after.readonly = self.readonly)
    (hfallback : after.legacyHashFallback = false →
      self.legacyHashFallback = false ∧ hash = keys.hashValueRuntime key) :
    Mixed keys after := by
  refine ⟨htable, ?_, fun hlegacy position entry hentry => ?_, hreadonly.trans h.writable⟩
  · rw [hentries]
    exact h.distinct.append hnew value
  · obtain ⟨hlegacy, hhash⟩ := hfallback hlegacy
    have hlength : self.backend.entryHashes.length = self.entries.length := h.table.hashes_length
    rw [DictBackend.hashAt, hhashes, DictBackend.join_getElem?_append, hlength]
    rw [hentries, List.getElem?_append] at hentry
    split at hentry
    · rename_i hlt
      rw [if_neg (by omega)]
      exact h.runtime hlegacy position entry hentry
    · rename_i hle
      have hzero := (List.getElem?_eq_some_iff.1 hentry).1
      rw [List.length_singleton] at hzero
      obtain rfl := List.mem_singleton.1 (List.mem_of_getElem? hentry)
      rw [if_pos (by omega), hhash]

/-- A store under a hash, where a present key is stored under that hash. -/
lemma insertWithHash_spec (hlawful : keys.Lawful) (h : Mixed keys self) {key : α} {value : β}
    {hash : UInt64} (hpresent : ∀ (index : ℕ) (entry : α × β), self.entries[index]? = some entry →
      keys.valueKeyEqual entry.1 key = true → self.backend.hashAt index = some hash) :
    ∃ backend, self.backend.insertWithHash keys.toKeys key value hash = some backend ∧
      backend.entries = store keys.valueKeyEqual key value self.entries ∧
      ∀ legacy : Bool, (legacy = false → self.legacyHashFallback = false ∧
          some hash = keys.hashValueRuntime key) →
        Mixed keys { self with backend, legacyHashFallback := legacy } := by
  obtain ⟨backend, hinsert, htable, hstored⟩ :=
    DictBackend.insertWithHash_spec h.table key value hash
  refine ⟨backend, hinsert, ?_⟩
  cases hstored with
  | update entry pair _ hpair hequal hentries hhashes =>
    refine ⟨?_, fun legacy hlegacy => h.setEntry hpair htable hentries hhashes rfl
      fun hfalse => (hlegacy hfalse).1⟩
    rw [hentries]
    exact (store_eq_set hlawful.lawful.agrees h.distinct hpair hequal value).symm
  | append hnone hentries hhashes =>
    have hnew : ∀ pair ∈ self.entries, keys.valueKeyEqual pair.1 key = false :=
      DictBackend.forall_key_ne hpresent hnone
    refine ⟨?_, fun legacy hlegacy => h.appendEntry hnew htable hentries hhashes rfl
      fun hfalse => hlegacy hfalse⟩
    rw [hentries]
    exact (store_eq_append hnew value).symm

lemma dictSetValue_spec (hlawful : keys.Lawful) (h : Mixed keys self) {key : α} (value : β)
    (hpresent : ∀ (index : ℕ) (entry : α × β), self.entries[index]? = some entry →
      keys.valueKeyEqual entry.1 key = true →
        self.backend.hashAt index = keys.valueLookupHash key) :
    ∃ after, self.dictSetValue keys key value = some after ∧ Mixed keys after ∧
      after.entries = store keys.valueKeyEqual key value self.entries := by
  rw [dictSetValue, insert, DictBackend.insert]
  cases hhash : keys.valueLookupHash key with
  | some hash =>
    rw [hhash] at hpresent
    obtain ⟨backend, hinsert, hentries, hmixed⟩ :=
      @insertWithHash_spec _ _ _ _ hlawful h _ value _ hpresent
    exact ⟨{ self with backend, legacyHashFallback := true },
      by simp only [hinsert, Option.map_some],
      hmixed true fun hfalse => absurd hfalse.symm Bool.false_ne_true, hentries⟩
  | none =>
    have hlinear := @findIndexLinear_spec _ _ keys self key
    have hfind : self.backend.findIndex keys.toKeys key =
        some (self.dictFindIndexLinear keys key) := by
      rw [DictBackend.findIndex, hhash]
      rfl
    simp only [hfind, Option.bind_eq_bind, Option.bind_some]
    cases hposition : self.dictFindIndexLinear keys key with
    | some index =>
      rw [hposition] at hlinear
      obtain ⟨pair, hpair, hequal⟩ := hlinear
      obtain ⟨backend, hset, htable, hentries, hhashes, -⟩ :=
        DictBackend.setValueAt_spec h.table hpair value
      refine ⟨{ self with backend, legacyHashFallback := true },
        by simp only [hset, Option.map_some], h.setEntry hpair htable hentries hhashes rfl
          fun hfalse => absurd hfalse.symm Bool.false_ne_true, ?_⟩
      exact hentries.trans (store_eq_set hlawful.lawful.agrees h.distinct hpair hequal value).symm
    | none =>
      rw [hposition] at hlinear
      refine ⟨_, rfl, h.appendEntry hlinear (h.table.pushUnhashed hhash value) rfl rfl rfl
        fun hfalse => absurd hfalse.symm Bool.false_ne_true, ?_⟩
      exact (store_eq_append hlinear value).symm

lemma dictSetValueCheckedRuntime_spec (hlawful : keys.Lawful) (h : Mixed keys self) {key : α}
    {hash : UInt64} (value : β) (hhash : keys.hashValueRuntime key = some hash)
    (hpresent : ∀ (index : ℕ) (entry : α × β), self.entries[index]? = some entry →
      keys.valueKeyEqual entry.1 key = true → keys.eq entry.1 entry.1 = true ∨
        self.backend.hashAt index = keys.hashValueRuntime key) :
    ∃ after, self.dictSetValueCheckedRuntime keys key value = some (after, .stored) ∧
      Mixed keys after ∧ after.entries = store keys.valueKeyEqual key value self.entries := by
  obtain ⟨found, hlookup, hfound⟩ := lookupRuntime_spec hlawful h hhash
  have happend : (∀ (index : ℕ) (entry : α × β), self.entries[index]? = some entry →
      keys.valueKeyEqual entry.1 key = true → self.backend.hashAt index = some hash) →
      ∃ after, ((self.insertWithHash keys key value hash).map fun after =>
          (after, (DictResult.stored : DictResult β))) = some (after, .stored) ∧
        Mixed keys after ∧ after.entries = store keys.valueKeyEqual key value self.entries := by
    intro hstored
    obtain ⟨backend, hinsert, hentries, hmixed⟩ :=
      @insertWithHash_spec _ _ _ _ hlawful h _ value _ hstored
    refine ⟨{ self with backend }, ?_, hmixed self.legacyHashFallback fun hfalse =>
      ⟨hfalse, hhash.symm⟩, hentries⟩
    rw [insertWithHash, hinsert]
    rfl
  rw [dictSetValueCheckedRuntime, hhash]
  simp only [h.writable, Bool.false_eq_true, if_false, hlookup, Option.bind_eq_bind,
    Option.bind_some]
  cases found with
  | none =>
    refine happend fun index entry hentry hequal => ?_
    rw [hfound entry (List.mem_of_getElem? hentry)] at hequal
    cases hequal
  | some found =>
    obtain ⟨index, pair⟩ := found
    obtain ⟨hpair, hequal⟩ := hfound
    simp only [hpair]
    by_cases heq : keys.eq pair.1 pair.1 = true
    · rw [if_pos heq]
      obtain ⟨backend, hset, htable, hentries, hhashes, -⟩ :=
        DictBackend.setValueAt_spec h.table hpair value
      have hlt := (List.getElem?_eq_some_iff.1 hpair).1
      refine ⟨{ self with backend }, ?_, h.setEntry hpair htable hentries hhashes rfl id, ?_⟩
      · rw [setValueAt, if_neg (show ¬self.len ≤ index from Nat.not_le.2 hlt), hset]
        rfl
      · exact hentries.trans (store_eq_set hlawful.lawful.agrees h.distinct hpair hequal value).symm
    · rw [if_neg heq]
      refine happend fun position entry hentry hentryEqual => ?_
      obtain rfl := h.distinct.unique hlawful.lawful.agrees hentry hpair hentryEqual hequal
      obtain rfl := Option.some.inj (hpair.symm.trans hentry)
      rw [(hpresent position pair hentry hequal).resolve_left heq, hhash]

/-! ## Removals -/

lemma remove_spec (h : Mixed keys self) {index : ℕ} {removed : α × β}
    (hremoved : self.entries[index]? = some removed)
    (hremovable : self.backend.StoredRemovable index) :
    ∃ after, self.remove keys index = some (after, removed) ∧ Mixed keys after ∧
      after.entries = self.entries.eraseIdx index := by
  have hlt := (List.getElem?_eq_some_iff.1 hremoved).1
  obtain ⟨backend, hremove, htable, hentries, hhashes⟩ :=
    DictBackend.remove_spec h.table hremoved (h.table.keeps hlt hremovable)
  set kept : DictObject α β := { self with backend } with hkept
  have hfields :
      kept.resetFallback.backend = backend ∧ kept.resetFallback.readonly = self.readonly ∧
      (kept.resetFallback.legacyHashFallback = false →
        backend.entries = [] ∨ self.legacyHashFallback = false) := by
    rw [resetFallback]
    split
    · rename_i hempty
      exact ⟨rfl, rfl, fun _ => .inl (List.isEmpty_iff.1 hempty)⟩
    · exact ⟨rfl, rfl, fun hfalse => .inr hfalse⟩
  obtain ⟨hbackend, hreadonly, hfallback⟩ := hfields
  have hafterEntries : kept.resetFallback.entries = self.entries.eraseIdx index := by
    rw [entries, hbackend]
    exact hentries
  refine ⟨kept.resetFallback, by rw [remove, hremove]; rfl, ⟨?_, ?_, ?_, ?_⟩, hafterEntries⟩
  · rw [hbackend]
    exact htable
  · rw [hafterEntries]
    exact h.distinct.sublist (List.eraseIdx_sublist _ _)
  · intro hlegacy position entry hentry
    obtain hnil | hlegacy := hfallback hlegacy
    · rw [entries, hbackend, hnil] at hentry
      cases hentry
    · rw [hbackend, DictBackend.hashAt, hhashes, DictBackend.getElem?_eraseIdx_oldIndex]
      rw [hafterEntries, DictBackend.getElem?_eraseIdx_oldIndex] at hentry
      exact h.runtime hlegacy _ entry hentry
  · exact hreadonly.trans h.writable

/-- The removal of the entry with a key, once it is found. -/
lemma remove_found (hlawful : keys.Lawful) (h : Mixed keys self) {key : α} {index : ℕ}
    {pair : α × β} (hpair : self.entries[index]? = some pair)
    (hequal : keys.valueKeyEqual pair.1 key = true)
    (hremovable : self.backend.StoredRemovable index) :
    ∃ after, self.remove keys index = some (after, pair) ∧ Mixed keys after ∧
      after.entries = delete keys.valueKeyEqual key self.entries := by
  obtain ⟨after, hremove, hmixed, hentries⟩ := remove_spec h hpair hremovable
  refine ⟨after, hremove, hmixed, hentries.trans ?_⟩
  exact (delete_eq_eraseIdx hlawful.lawful.agrees h.distinct hpair hequal).symm

lemma dictRemoveValue_spec (hlawful : keys.Lawful) (h : Mixed keys self) {key : α}
    (hremovable : ∀ (index : ℕ) (entry : α × β), self.entries[index]? = some entry →
      keys.valueKeyEqual entry.1 key = true → self.backend.StoredRemovable index) :
    ∃ after, self.dictRemoveValue keys key =
        some (after, lookup keys.valueKeyEqual self.entries key) ∧ Mixed keys after ∧
      after.entries = delete keys.valueKeyEqual key self.entries := by
  have hlinear := @findIndexLinear_spec _ _ keys self key
  -- the search through the entries, where the lookup found none or was not made
  have hrest : ∃ after, (match self.dictFindIndexLinear keys key with
      | some index =>
        (self.remove keys index).bind fun removed => some (removed.1, some removed.2.2)
      | none => some (self, none)) = some (after, lookup keys.valueKeyEqual self.entries key) ∧
      Mixed keys after ∧ after.entries = delete keys.valueKeyEqual key self.entries := by
    cases hposition : self.dictFindIndexLinear keys key with
    | some index =>
      rw [hposition] at hlinear
      obtain ⟨pair, hpair, hequal⟩ := hlinear
      obtain ⟨after, hremove, hspec⟩ :=
        remove_found hlawful h hpair hequal (hremovable index pair hpair hequal)
      refine ⟨after, ?_, hspec⟩
      rw [lookup_eq_some hlawful.lawful.agrees h.distinct hpair hequal]
      simp [hremove]
    | none =>
      rw [hposition] at hlinear
      exact ⟨self, by rw [lookup_eq_none hlinear], h, (delete_eq_self hlinear).symm⟩
  rw [dictRemoveValue]
  cases hhash : keys.valueLookupHash key with
  | none => exact hrest
  | some hash =>
    obtain ⟨found, hfind, hsome, -⟩ := DictBackend.findIndexWithHash_spec h.table key hash
    simp only [removeKeyWithHash, DictBackend.removeKeyWithHash, hfind, Option.bind_eq_bind,
      Option.bind_some]
    cases found with
    | none => exact hrest
    | some index =>
      obtain ⟨pair, hpair, hequal⟩ := hsome index rfl
      obtain ⟨after, hremove, hspec⟩ :=
        remove_found hlawful h hpair hequal (hremovable index pair hpair hequal)
      refine ⟨after, ?_, hspec⟩
      obtain ⟨result, hbackend, heq⟩ := Option.map_eq_some_iff.1 hremove
      obtain ⟨rfl, rfl⟩ := Prod.mk.inj heq
      rw [lookup_eq_some hlawful.lawful.agrees h.distinct hpair hequal]
      simp [DictBackend.removeFound, hbackend]

lemma dictRemoveValueRuntime_spec (hlawful : keys.Lawful) (h : Mixed keys self) {key : α}
    {hash : UInt64} (hhash : keys.hashValueRuntime key = some hash)
    (hremovable : ∀ (index : ℕ) (entry : α × β), self.entries[index]? = some entry →
      keys.valueKeyEqual entry.1 key = true → keys.eq entry.1 entry.1 = true ∧
        self.backend.StoredRemovable index) :
    ∃ after, self.dictRemoveValueRuntime keys key =
        some (after, .value (lookup keys.valueKeyEqual self.entries key)) ∧ Mixed keys after ∧
      after.entries = delete keys.valueKeyEqual key self.entries := by
  obtain ⟨found, hlookup, hfound⟩ := lookupRuntime_spec hlawful h hhash
  rw [dictRemoveValueRuntime, hhash]
  simp only [hlookup, Option.bind_eq_bind, Option.bind_some]
  cases found with
  | none => exact ⟨self, by rw [lookup_eq_none hfound], h, (delete_eq_self hfound).symm⟩
  | some found =>
    obtain ⟨index, pair⟩ := found
    obtain ⟨hpair, hequal⟩ := hfound
    obtain ⟨heq, hremovable⟩ := hremovable index pair hpair hequal
    obtain ⟨after, hremove, hspec⟩ := remove_found hlawful h hpair hequal hremovable
    refine ⟨after, ?_, hspec⟩
    rw [lookup_eq_some hlawful.lawful.agrees h.distinct hpair hequal]
    simp [hpair, heq, hremove]

/-! ## Runs -/

lemma Mixed.apply_spec (hlawful : keys.Lawful) (h : Mixed keys self) (call : DictCall α β)
    (hsafe : call.Safe keys self) :
    ∃ after, call.apply keys self = some (after, call.answer keys self.entries) ∧
      Mixed keys after ∧ after.entries = call.spec keys self.entries := by
  cases call with
  | getValue key =>
    exact ⟨self, by rw [DictCall.apply, dictGetValue_spec hlawful h]; rfl, h, rfl⟩
  | setValue key value =>
    obtain ⟨after, hset, hspec⟩ := dictSetValue_spec hlawful h value hsafe
    exact ⟨after, by rw [DictCall.apply, hset]; rfl, hspec⟩
  | removeValue key =>
    obtain ⟨after, hremove, hspec⟩ := dictRemoveValue_spec hlawful h hsafe
    exact ⟨after, by rw [DictCall.apply, hremove]; rfl, hspec⟩
  | containsKeyChecked key =>
    refine ⟨self, ?_, h, rfl⟩
    rw [DictCall.apply, DictCall.answer]
    cases hhash : keys.valueLookupHash key with
    | none => rw [dictContainsKeyChecked, hhash]; rfl
    | some hash => rw [dictContainsKeyChecked_spec hlawful h hhash]; rfl
  | getValueRuntime key =>
    refine ⟨self, ?_, h, rfl⟩
    rw [DictCall.apply, DictCall.answer, dictGetValueRuntime]
    cases hhash : keys.hashValueRuntime key with
    | none => rfl
    | some hash =>
      obtain ⟨found, hlookup, hanswer⟩ := lookupRuntime_answer hlawful h hhash
      simp only [hlookup, hanswer]
      cases found <;> rfl
  | containsKeyCheckedRuntime key =>
    refine ⟨self, ?_, h, rfl⟩
    rw [DictCall.apply, DictCall.answer, dictContainsKeyCheckedRuntime]
    cases hhash : keys.hashValueRuntime key with
    | none => rfl
    | some hash =>
      obtain ⟨found, hlookup, hanswer⟩ := lookupRuntime_answer hlawful h hhash
      simp only [hlookup, hanswer]
      cases found <;> rfl
  | setValueCheckedRuntime key value =>
    rw [DictCall.apply, DictCall.answer, DictCall.spec]
    cases hhash : keys.hashValueRuntime key with
    | none => exact ⟨self, by rw [dictSetValueCheckedRuntime, hhash]; rfl, h, rfl⟩
    | some hash =>
      exact dictSetValueCheckedRuntime_spec hlawful h value hhash
        fun index entry hentry hequal => hsafe index entry hentry hequal (by rw [hhash]; rfl)
  | removeValueRuntime key =>
    rw [DictCall.apply, DictCall.answer, DictCall.spec]
    cases hhash : keys.hashValueRuntime key with
    | none => exact ⟨self, by rw [dictRemoveValueRuntime, hhash]; rfl, h, rfl⟩
    | some hash =>
      exact dictRemoveValueRuntime_spec hlawful h hhash
        fun index entry hentry hequal => hsafe index entry hentry hequal (by rw [hhash]; rfl)

lemma new_mixed (hlawful : keys.Lawful) (initial : List (α × β)) :
    ∃ dict, DictObject.new keys initial = some dict ∧ Mixed keys dict ∧ dict.entries =
      initial.foldl (fun list entry => store keys.valueKeyEqual entry.1 entry.2 list) [] := by
  obtain ⟨backend, hnew, hkeyed, hentries⟩ := DictBackend.new_spec hlawful.lawful initial
  refine ⟨{ backend, readonly := false, legacyHashFallback := !initial.isEmpty },
    by rw [DictObject.new, hnew]; rfl, ⟨hkeyed.toTable, hkeyed.distinct, ?_, rfl⟩, hentries⟩
  intro hlegacy index entry hentry
  have hnil : initial = [] := by simpa using hlegacy
  rw [entries, hentries, hnil] at hentry
  cases hentry

lemma Filled.mixed (hlawful : keys.Lawful) {dict : DictObject α β} {list : List (α × β)}
    (h : Filled keys dict list) : Mixed keys dict ∧ dict.entries = list := by
  induction h with
  | new initial dict hnew =>
    obtain ⟨other, hother, hmixed, hentries⟩ := new_mixed hlawful initial
    obtain rfl := Option.some.inj (hnew.symm.trans hother)
    exact ⟨hmixed, hentries⟩
  | call before after list call result _ hsafe hcall ih =>
    obtain ⟨hmixed, rfl⟩ := ih
    obtain ⟨other, hother, hafter, hentries⟩ := hmixed.apply_spec hlawful call hsafe
    obtain ⟨rfl, -⟩ := Prod.mk.inj (Option.some.inj (hcall.symm.trans hother))
    exact ⟨hafter, hentries⟩

/-! ## Equality -/

/-- A key is found under its lookup hash, where an entry with it is stored under that hash. -/
lemma find_spec (hlawful : keys.Lawful) (h : Mixed keys self) {key : α}
    (hlooks : ∀ (index : ℕ) (stored : α × β), self.entries[index]? = some stored →
      keys.valueKeyEqual stored.1 key = true →
        self.backend.hashAt index = keys.valueLookupHash key) :
    self.find keys key = some (lookup keys.valueKeyEqual self.entries key) := by
  have hspec : ∃ found, self.backend.findIndex keys.toKeys key = some found ∧
      match found with
      | some index => ∃ pair, self.entries[index]? = some pair ∧
          keys.valueKeyEqual pair.1 key = true
      | none => ∀ pair ∈ self.entries, keys.valueKeyEqual pair.1 key = false := by
    rw [DictBackend.findIndex]
    cases hhash : keys.valueLookupHash key with
    | none => exact ⟨_, rfl, findIndexLinear_spec self key⟩
    | some hash =>
      obtain ⟨found, hfind, hsome, hnone⟩ := DictBackend.findIndexWithHash_spec h.table key hash
      refine ⟨found, hfind, ?_⟩
      cases found with
      | some index => exact hsome index rfl
      | none =>
        exact DictBackend.forall_key_ne
          (fun index pair hindex hequal => (hlooks index pair hindex hequal).trans hhash)
          fun index pair hat hindex => hnone rfl index pair hindex hat
  obtain ⟨found, hfind, hfound⟩ := hspec
  rw [find, DictBackend.find, hfind, Option.bind_eq_bind, Option.bind_some]
  cases found with
  | none => rw [lookup_eq_none hfound]; rfl
  | some index =>
    obtain ⟨pair, hpair, hequal⟩ := hfound
    have hget : self.backend.entries[index]? = some pair := hpair
    rw [lookup_eq_some hlawful.lawful.agrees h.distinct hpair hequal, DictBackend.valueAt, hget]
    rfl

lemma eqEntries_spec (hlawful : keys.Lawful) (valueEq : β → β → Bool) {other : DictObject α β}
    (hother : Mixed keys other) (list : List (α × β))
    (hlooks : ∀ entry ∈ list, ∀ (index : ℕ) (stored : α × β),
      other.entries[index]? = some stored → keys.valueKeyEqual stored.1 entry.1 = true →
        other.backend.hashAt index = keys.valueLookupHash entry.1) :
    ∃ equal, eqEntries keys valueEq other list = some equal ∧ (equal = true ↔
      ∀ entry ∈ list, ∃ value, lookup keys.valueKeyEqual other.entries entry.1 = some value ∧
        valueEq value entry.2 = true) := by
  induction list with
  | nil => exact ⟨true, rfl, by simp⟩
  | cons entry list ih =>
    obtain ⟨key, value⟩ := entry
    have hfind := find_spec hlawful hother (hlooks _ List.mem_cons_self)
    obtain ⟨equal, heq, hiff⟩ := ih fun entry hentry => hlooks entry (List.mem_cons_of_mem _ hentry)
    rw [eqEntries, hfind]
    simp only [Option.bind_eq_bind, Option.bind_some, List.forall_mem_cons]
    cases hlookup : lookup keys.valueKeyEqual other.entries key with
    | none => exact ⟨false, rfl, by simp⟩
    | some otherValue =>
      simp only
      by_cases hvalue : valueEq otherValue value = true
      · rw [if_pos hvalue]
        refine ⟨equal, heq, hiff.trans ⟨fun hall => ⟨⟨_, rfl, hvalue⟩, hall⟩, fun hall => hall.2⟩⟩
      · rw [if_neg hvalue]
        refine ⟨false, rfl, ⟨fun hfalse => (nomatch hfalse), fun hall => ?_⟩⟩
        obtain ⟨⟨found, hfound, hequal⟩, -⟩ := hall
        obtain rfl := Option.some.inj hfound
        exact absurd hequal hvalue

lemma eq_spec (hlawful : keys.Lawful) (valueEq : β → β → Bool) {other : DictObject α β}
    (hother : Mixed keys other) (hlooks : self.LooksUp keys other) :
    ∃ equal, self.eq keys valueEq other = some equal ∧
      (equal = true ↔ EqualEntries keys valueEq self.entries other.entries) := by
  rw [DictObject.eq]
  by_cases hlength : self.len = other.len
  · rw [if_neg (not_not.2 hlength)]
    obtain ⟨equal, heq, hiff⟩ := eqEntries_spec hlawful valueEq hother self.entries hlooks
    exact ⟨equal, heq, hiff.trans ⟨fun hall => ⟨hlength, hall⟩, fun hall => hall.2⟩⟩
  · rw [if_pos hlength]
    exact ⟨false, rfl, ⟨fun hfalse => (nomatch hfalse), fun hall => absurd hall.1 hlength⟩⟩

/-- Safe calls through either API act on every dict as on its association list, and dicts whose
entries are stored under their lookup hashes compare as their association lists. -/
theorem filled_agrees (hlawful : keys.Lawful) :
    (∀ initial : List (α × β), ∃ dict, DictObject.new keys initial = some dict) ∧
    ∀ (dict : DictObject α β) (list : List (α × β)), Filled keys dict list →
      (dict.entries = list ∧ Distinct keys.valueKeyEqual list) ∧
      (∀ call : DictCall α β, call.Safe keys dict →
        ∃ after, call.apply keys dict = some (after, call.answer keys list) ∧
          after.entries = call.spec keys list) ∧
      ∀ (valueEq : β → β → Bool) (other : DictObject α β) (otherList : List (α × β)),
        Filled keys other otherList → dict.LooksUp keys other →
          ∃ equal, dict.eq keys valueEq other = some equal ∧
            (equal = true ↔ EqualEntries keys valueEq list otherList) := by
  refine ⟨fun initial => ?_, fun dict list hfilled => ?_⟩
  · obtain ⟨dict, hnew, -⟩ := new_mixed (β := β) hlawful initial
    exact ⟨dict, hnew⟩
  · obtain ⟨hmixed, rfl⟩ := hfilled.mixed hlawful
    refine ⟨⟨rfl, hmixed.distinct⟩, fun call hsafe => ?_,
      fun valueEq other otherList hother hlooks => ?_⟩
    · obtain ⟨after, happly, -, hentries⟩ := hmixed.apply_spec hlawful call hsafe
      exact ⟨after, happly, hentries⟩
    · obtain ⟨hotherMixed, rfl⟩ := hother.mixed hlawful
      exact eq_spec hlawful valueEq hotherMixed hlooks

/-- Numbers under the lookup hash zero and the runtime hash one. -/
def twoHashes : RuntimeKeys ℕ where
  valueKeyEqual a b := a == b
  valueLookupHash _ := some 0
  hashValueRuntime _ := some 1
  compareEqRuntime a b := a == b
  eq a b := a == b

lemma lawful_twoHashes : twoHashes.Lawful := by
  refine ⟨⟨fun a => beq_self_eq_true a, fun a b h => ?_, fun a b c hab hbc => ?_, fun _ _ _ => rfl⟩,
    fun _ _ => rfl, fun _ _ _ => rfl⟩
  · rw [eq_of_beq h]
    exact beq_self_eq_true b
  · rw [eq_of_beq hab]
    exact hbc

/-- A native store, a runtime store of another key and one over the native store; lookups through
both APIs, and a comparison with a dict in another order. -/
theorem filled_agrees_twoHashes :
    ∃ fresh one two dict other : DictObject ℕ ℕ,
      DictObject.new twoHashes [] = some fresh ∧
      (DictCall.setValue 1 10).apply twoHashes fresh = some (one, .stored) ∧
      (DictCall.setValueCheckedRuntime 2 20).apply twoHashes one = some (two, .stored) ∧
      (DictCall.setValueCheckedRuntime 1 30).apply twoHashes two = some (dict, .stored) ∧
      dict.entries = [(1, 30), (2, 20)] ∧
      (∃ after, (DictCall.getValueRuntime 2).apply twoHashes dict =
        some (after, .value (some 20))) ∧
      (∃ after, (DictCall.getValue 1).apply twoHashes dict = some (after, .value (some 30))) ∧
      DictObject.new twoHashes [(2, 20), (1, 30)] = some other ∧
      dict.eq twoHashes (fun a b => a == b) other = some true := by
  obtain ⟨hmakes, hagrees⟩ := filled_agrees (β := ℕ) lawful_twoHashes
  obtain ⟨fresh, hnew⟩ := hmakes []
  have hfresh : Filled twoHashes fresh [] := .new [] fresh hnew
  have hsafe : ∀ (dict : DictObject ℕ ℕ) (key value : ℕ),
      (DictCall.setValueCheckedRuntime key value).Safe twoHashes dict :=
    fun _ _ _ _ entry _ _ _ => .inl (beq_self_eq_true entry.1)
  have hempty : (DictCall.setValue 1 10).Safe twoHashes fresh := fun index entry hentry => by
    rw [(hagrees fresh [] hfresh).1.1] at hentry
    cases hentry
  obtain ⟨one, hone, -⟩ := (hagrees fresh [] hfresh).2.1 _ hempty
  have hfilledOne : Filled twoHashes one [(1, 10)] := .call _ _ _ _ _ hfresh hempty hone
  obtain ⟨two, htwo, -⟩ := (hagrees one _ hfilledOne).2.1 _ (hsafe one 2 20)
  have hfilledTwo : Filled twoHashes two [(1, 10), (2, 20)] :=
    .call _ _ _ _ _ hfilledOne (hsafe one 2 20) htwo
  obtain ⟨dict, hdict, -⟩ := (hagrees two _ hfilledTwo).2.1 _ (hsafe two 1 30)
  have hfilled : Filled twoHashes dict [(1, 30), (2, 20)] :=
    .call _ _ _ _ _ hfilledTwo (hsafe two 1 30) hdict
  obtain ⟨⟨hentries, -⟩, hcalls, hequal⟩ := hagrees dict _ hfilled
  obtain ⟨runtime, hruntime, -⟩ := hcalls (.getValueRuntime 2) fun _ _ _ => trivial
  obtain ⟨native, hnative, -⟩ := hcalls (.getValue 1) fun _ _ _ => trivial
  obtain ⟨other, hother⟩ := hmakes [(2, 20), (1, 30)]
  have hfilledOther : Filled twoHashes other [(2, 20), (1, 30)] := .new _ other hother
  have hlooks : dict.LooksUp twoHashes other := fun entry _ index stored hstored _ => by
    rw [(hagrees other _ hfilledOther).1.1] at hstored
    obtain rfl := Option.some.inj hother
    rcases index with _ | _ | index
    · rfl
    · rfl
    · cases hstored
  obtain ⟨equal, heq, hiff⟩ := hequal (fun a b => a == b) other _ hfilledOther hlooks
  have hall : EqualEntries twoHashes (fun a b : ℕ => a == b) [(1, 30), (2, 20)]
      [(2, 20), (1, 30)] := by
    refine ⟨rfl, fun entry hentry => ?_⟩
    obtain rfl | rfl : entry = (1, 30) ∨ entry = (2, 20) := by simpa using hentry
    · exact ⟨30, rfl, rfl⟩
    · exact ⟨20, rfl, rfl⟩
  rw [hiff.2 hall] at heq
  exact ⟨fresh, one, two, dict, other, hnew, hone, htwo, hdict, hentries, ⟨runtime, hruntime⟩,
    ⟨native, hnative⟩, hother, heq⟩

/-- A native store does not find the key that the runtime API stored, and a dict that the runtime
API filled does not equal the one that the native API filled. -/
theorem runtime_key_stored_twice :
    twoHashes.Lawful ∧ ∃ fresh runtime native twice : DictObject ℕ ℕ,
      DictObject.new twoHashes [] = some fresh ∧
      (DictCall.setValueCheckedRuntime 3 10).apply twoHashes fresh = some (runtime, .stored) ∧
      (DictCall.setValue 3 10).apply twoHashes fresh = some (native, .stored) ∧
      (DictCall.setValue 3 20).apply twoHashes runtime = some (twice, .stored) ∧
      twice.entries = [(3, 10), (3, 20)] ∧ runtime.entries = native.entries ∧
      native.eq twoHashes (fun a b => a == b) runtime = some false := by
  refine ⟨lawful_twoHashes, _, _, _, _, rfl, rfl, rfl, rfl, ?_⟩
  decide

end DictObject

end Pyrs
