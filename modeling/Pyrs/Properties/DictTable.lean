import Pyrs.Library.Probing
import Pyrs.Model.Dicts

/-!
# The probe table of a dict

The table of a `DictBackend` keeps a slot for each entry with a hash, and the slot stands on the
probe sequence of the hash before every slot that was never used.  Each operation keeps this, up to
one: where an entry without a slot is removed, the slots of the entries after it keep their old
positions.
-/

namespace Pyrs

lemma le_doubleUntil {value : ℕ} (fuel power : ℕ) (h : value ≤ 2 ^ fuel * power) :
    value ≤ doubleUntil value fuel power := by
  induction fuel generalizing power with
  | zero =>
    rw [pow_zero, Nat.one_mul] at h
    exact h
  | succ fuel ih =>
    rw [doubleUntil]
    split
    · assumption
    · refine ih (2 * power) ?_
      rwa [← Nat.mul_assoc, ← pow_succ]

lemma doubleUntil_eq_pow (value fuel j : ℕ) : ∃ k, doubleUntil value fuel (2 ^ j) = 2 ^ k := by
  induction fuel generalizing j with
  | zero => exact ⟨j, rfl⟩
  | succ fuel ih =>
    rw [doubleUntil]
    split
    · exact ⟨j, rfl⟩
    · rw [← pow_succ']
      exact ih (j + 1)

lemma le_nextPowerOfTwo (value : ℕ) : value ≤ nextPowerOfTwo value := by
  refine le_doubleUntil value 1 ?_
  rw [Nat.mul_one]
  exact Nat.lt_two_pow_self.le

lemma nextPowerOfTwo_eq_pow (value : ℕ) : ∃ k, nextPowerOfTwo value = 2 ^ k :=
  doubleUntil_eq_pow value value 0

lemma assign_eq {γ : Type} {values : List γ} {index : ℕ} (h : index < values.length) (value : γ) :
    assign values index value = some (values.set index value) := if_pos h

namespace DictSlot

def isOccupied : DictSlot → Bool
  | .occupied _ _ => true
  | _ => false

def isUsed : DictSlot → Bool
  | .empty => false
  | _ => true

end DictSlot

namespace DictBackend

variable {α β : Type} {keys : Keys α} {self : DictBackend α β}

/-- The hash that is stored for an entry. -/
def hashAt (self : DictBackend α β) (entry : ℕ) : Option UInt64 := (self.entryHashes[entry]?).join

/-- The slot that is stored for an entry. -/
def slotAt (self : DictBackend α β) (entry : ℕ) : Option ℕ := (self.entrySlots[entry]?).join

/-- The slots on the probe sequence of a hash. -/
def probeAt (self : DictBackend α β) (hash : UInt64) (n : ℕ) : ℕ :=
  (probe self.slots.length perturbShift hash.toNat n).1

/-- A slot on the probe sequence of a hash, with no empty slot before it. -/
def Reaches (self : DictBackend α β) (hash : UInt64) (slot : ℕ) : Prop :=
  ∃ n < self.rounds, self.probeAt hash n = slot ∧
    ∀ m < n, self.slots[self.probeAt hash m]? ≠ some .empty

/-- The slots and the entries name each other. -/
structure Linked (keys : Keys α) (dict : DictBackend α β) : Prop where
  hashes_length : dict.entryHashes.length = dict.entries.length
  slots_length : dict.entrySlots.length = dict.entries.length
  size : dict.slots = [] ∨ ∃ k, dict.slots.length = 2 ^ k
  filled_eq : dict.filled = dict.slots.countP DictSlot.isUsed
  occupied : ∀ slot hash entry, dict.slots[slot]? = some (.occupied hash entry) ↔
    dict.hashAt entry = some hash ∧ dict.slotAt entry = some slot
  hashed : ∀ entry slot, dict.slotAt entry = some slot → (dict.hashAt entry).isSome
  reaches : ∀ entry hash slot, dict.hashAt entry = some hash → dict.slotAt entry = some slot →
    dict.Reaches hash slot
  unhashed : ∀ entry pair, dict.entries[entry]? = some pair → dict.hashAt entry = none →
    keys.valueLookupHash pair.1 = none

/-- Every entry with a hash has a slot. -/
structure Table (keys : Keys α) (dict : DictBackend α β) : Prop extends Linked keys dict where
  slotted : ∀ entry, (dict.hashAt entry).isSome → (dict.slotAt entry).isSome
  used_eq : dict.used = dict.entries.length
  count : dict.slots.countP DictSlot.isOccupied = dict.entryHashes.countP Option.isSome

lemma hashAt_eq_some {entry : ℕ} {hash : UInt64} :
    self.hashAt entry = some hash ↔ self.entryHashes[entry]? = some (some hash) :=
  Option.join_eq_some_iff

lemma slotAt_eq_some {entry slot : ℕ} :
    self.slotAt entry = some slot ↔ self.entrySlots[entry]? = some (some slot) :=
  Option.join_eq_some_iff

lemma lt_of_hashAt (hlength : self.entryHashes.length = self.entries.length) {entry : ℕ}
    {hash : UInt64} (h : self.hashAt entry = some hash) : entry < self.entries.length := by
  rw [hashAt_eq_some] at h
  exact hlength ▸ (List.getElem?_eq_some_iff.1 h).1

/-- No entry has a key that would have this hash, where none with the hash has the key. -/
lemma forall_key_ne {key : α} {hash : UInt64}
    (hpresent : ∀ (index : ℕ) pair, self.entries[index]? = some pair →
      keys.valueKeyEqual pair.1 key = true → self.hashAt index = some hash)
    (hnone : ∀ (index : ℕ) pair, self.hashAt index = some hash → self.entries[index]? = some pair →
      keys.valueKeyEqual pair.1 key = false) :
    ∀ pair ∈ self.entries, keys.valueKeyEqual pair.1 key = false := by
  intro pair hpair
  obtain ⟨index, hindex⟩ := List.mem_iff_getElem?.1 hpair
  by_contra htrue
  have hequal : keys.valueKeyEqual pair.1 key = true := by simpa using htrue
  exact htrue (hnone index pair (hpresent index pair hindex hequal) hindex)

/-! ## Probing -/

section Probing

variable {k : ℕ} (hsize : self.slots.length = 2 ^ k)

include hsize in
lemma nextSlot_eq (slot perturb : ℕ) :
    self.nextSlot slot perturb = (slot * 5 + perturb + 1) % self.slots.length := by
  rw [nextSlot, mask, hsize, Nat.and_two_pow_sub_one_eq_mod]

include hsize in
lemma probe_zero (hash : UInt64) : hash.toNat &&& self.mask = self.probeAt hash 0 := by
  rw [mask, hsize, Nat.and_two_pow_sub_one_eq_mod, probeAt, probe, hsize]

include hsize in
lemma probe_succ (hash : UInt64) (n : ℕ) :
    self.nextSlot (self.probeAt hash n) (hash.toNat >>> (perturbShift * n)) =
      self.probeAt hash (n + 1) := by
  rw [nextSlot_eq hsize, probeAt, ← probe_perturb]
  rfl

include hsize in
lemma probeAt_lt (hash : UInt64) (n : ℕ) : self.probeAt hash n < self.slots.length :=
  probe_lt (by rw [hsize]; exact Nat.two_pow_pos k) n

include hsize in
lemma exists_probedSlot (hash : UInt64) (n : ℕ) :
    ∃ current, self.slots[self.probeAt hash n]? = some current :=
  ⟨_, List.getElem?_eq_getElem (probeAt_lt hsize hash n)⟩

lemma perturb_succ (hash : UInt64) (n : ℕ) :
    hash.toNat >>> (perturbShift * n) >>> perturbShift =
      hash.toNat >>> (perturbShift * (n + 1)) := by
  rw [← Nat.shiftRight_add]
  rfl

/-- What a lookup reaches stands before the first empty slot. -/
lemma lt_of_first_empty {hash slotHash : UInt64} {m n entry : ℕ}
    (hempty : self.slots[self.probeAt hash n]? = some .empty)
    (hused : ∀ j < m, self.slots[self.probeAt hash j]? ≠ some .empty)
    (hoccupied : self.slots[self.probeAt hash m]? = some (.occupied slotHash entry)) : m < n := by
  obtain hlt | rfl | hlt := lt_trichotomy m n
  · exact hlt
  · rw [hempty] at hoccupied
    cases hoccupied
  · exact absurd hempty (hused n hlt)

include hsize in
/-- The rounds of a lookup are enough to see every slot. -/
lemma exists_probeAt (hash : UInt64) {slot : ℕ} (hslot : slot < self.slots.length) :
    ∃ n < self.rounds, self.probeAt hash n = slot := by
  have hgone : hash.toNat >>> (perturbShift * 13) = 0 := by
    rw [Nat.shiftRight_eq_div_pow]
    exact Nat.div_eq_of_lt (hash.toNat_lt.trans (by decide))
  rw [hsize] at hslot
  obtain ⟨n, hn, hprobe⟩ := exists_probe hgone hslot
  refine ⟨n, ?_, by rwa [probeAt, hsize]⟩
  rw [rounds, hsize]
  have hrounds : maxPerturbRounds = 14 := rfl
  omega

/-- A slot where an entry can be put: empty or a dummy, and reached by the hash. -/
def Free (self : DictBackend α β) (hash : UInt64) (slot : ℕ) : Prop :=
  (self.slots[slot]? = some .empty ∨ self.slots[slot]? = some .dummy) ∧ self.Reaches hash slot

/-- A slot is still reached where no slot has become empty. -/
lemma Reaches.of_empty {after : DictBackend α β} {hash : UInt64} {slot : ℕ}
    (h : self.Reaches hash slot) (hlength : after.slots.length = self.slots.length)
    (hempty : ∀ other : ℕ, after.slots[other]? = some .empty → self.slots[other]? = some .empty) :
    after.Reaches hash slot := by
  have hprobe : after.probeAt = self.probeAt := by
    funext otherHash n
    rw [probeAt, probeAt, hlength]
  obtain ⟨n, hn, hat, hused⟩ := h
  refine ⟨n, by rwa [rounds, hlength], by rwa [hprobe], fun m hm hnow => hused m hm ?_⟩
  rw [hprobe] at hnow
  exact hempty _ hnow

lemma Free.exists_slot {hash : UInt64} {slot : ℕ} (h : self.Free hash slot) :
    ∃ old, self.slots[slot]? = some old ∧ old.isOccupied = false := by
  obtain hempty | hdummy := h.1
  · exact ⟨_, hempty, rfl⟩
  · exact ⟨_, hdummy, rfl⟩

/-- Some slot is not occupied. -/
def HasRoom (self : DictBackend α β) : Prop :=
  ∃ slot : ℕ, self.slots[slot]? = some .empty ∨ self.slots[slot]? = some .dummy

/-- What the rounds before the `n`-th have seen. -/
structure Seen (dict : DictBackend α β) (hash : UInt64) (n : ℕ) (firstDummy : Option ℕ) : Prop where
  used : ∀ m < n, dict.slots[dict.probeAt hash m]? ≠ some .empty
  no_dummy : firstDummy = none → ∀ m < n, dict.slots[dict.probeAt hash m]? ≠ some .dummy
  dummy : ∀ slot, firstDummy = some slot → dict.slots[slot]? = some .dummy ∧
    ∃ m < n, dict.probeAt hash m = slot

lemma seen_zero (hash : UInt64) : self.Seen hash 0 none :=
  ⟨fun _ h => absurd h (Nat.not_lt_zero _), fun _ _ h => absurd h (Nat.not_lt_zero _),
    fun _ h => nomatch h⟩

section Seen

variable {hash : UInt64} {n : ℕ} {firstDummy : Option ℕ} (h : self.Seen hash n firstDummy)

include h in
lemma Seen.passDummy (hdummy : self.slots[self.probeAt hash n]? = some .dummy) :
    self.Seen hash (n + 1) (firstDummy.or (some (self.probeAt hash n))) := by
  refine ⟨fun m hm => ?_, fun hnone => ?_, fun slot hslot => ?_⟩
  · obtain hlt | rfl := Nat.lt_succ_iff_lt_or_eq.1 hm
    · exact h.used m hlt
    · rw [hdummy]
      exact fun heq => by cases heq
  · cases firstDummy <;> cases hnone
  · cases firstDummy with
    | none =>
      obtain rfl := Option.some.inj hslot
      exact ⟨hdummy, n, Nat.lt_succ_self n, rfl⟩
    | some first =>
      obtain ⟨hfirst, m, hm, hprobe⟩ := h.dummy slot hslot
      exact ⟨hfirst, m, Nat.lt_succ_of_lt hm, hprobe⟩

include h in
lemma Seen.passOccupied {slotHash : UInt64} {entry : ℕ}
    (hoccupied : self.slots[self.probeAt hash n]? = some (.occupied slotHash entry)) :
    self.Seen hash (n + 1) firstDummy := by
  refine ⟨fun m hm => ?_, fun hnone m hm => ?_, fun slot hslot => ?_⟩
  · obtain hlt | rfl := Nat.lt_succ_iff_lt_or_eq.1 hm
    · exact h.used m hlt
    · rw [hoccupied]
      exact fun heq => by cases heq
  · obtain hlt | rfl := Nat.lt_succ_iff_lt_or_eq.1 hm
    · exact h.no_dummy hnone m hlt
    · rw [hoccupied]
      exact fun heq => by cases heq
  · obtain ⟨hfirst, m, hm, hprobe⟩ := h.dummy slot hslot
    exact ⟨hfirst, m, Nat.lt_succ_of_lt hm, hprobe⟩

include h in
/-- A dummy that was passed is free. -/
lemma Seen.free_dummy (hn : n ≤ self.rounds) {slot : ℕ} (hslot : firstDummy = some slot) :
    self.Free hash slot := by
  obtain ⟨hfirst, m, hm, hprobe⟩ := h.dummy slot hslot
  exact ⟨.inr hfirst, m, hm.trans_le hn, hprobe, fun j hj => h.used j (hj.trans hm)⟩

include h in
/-- Where the rounds come to an empty slot, the insertion slot is free. -/
lemma Seen.free_empty (hn : n < self.rounds)
    (hempty : self.slots[self.probeAt hash n]? = some .empty) :
    self.Free hash (firstDummy.getD (self.probeAt hash n)) := by
  cases firstDummy with
  | none => exact ⟨.inl hempty, n, hn, rfl, h.used⟩
  | some slot => exact h.free_dummy hn.le rfl

include h hsize in
/-- Where the rounds are over, a table with room has shown a dummy. -/
lemma Seen.free_end (hn : n = self.rounds) (hroom : self.HasRoom) (slot : ℕ) :
    self.Free hash (firstDummy.getD slot) := by
  cases hfirst : firstDummy with
  | some first =>
    rw [hfirst] at h
    exact h.free_dummy hn.le rfl
  | none =>
    obtain ⟨free, hfree⟩ := hroom
    have hlt : free < self.slots.length := by
      obtain hfree | hfree := hfree <;> exact (List.getElem?_eq_some_iff.1 hfree).1
    obtain ⟨m, hm, rfl⟩ := exists_probeAt hsize hash hlt
    obtain hfree | hfree := hfree
    · exact absurd hfree (h.used m (hn ▸ hm))
    · exact absurd hfree (h.no_dummy hfirst m (hn ▸ hm))

end Seen

include hsize in
lemma vacantFrom_spec {hash : UInt64} (hroom : self.HasRoom) (rounds n : ℕ)
    (firstDummy : Option ℕ) (hn : n + rounds = self.rounds) (h : self.Seen hash n firstDummy) :
    ∃ slot, self.vacantFrom rounds (self.probeAt hash n) (hash.toNat >>> (perturbShift * n))
      firstDummy = some slot ∧ self.Free hash slot := by
  induction rounds generalizing n firstDummy with
  | zero => exact ⟨_, rfl, h.free_end hsize hn hroom _⟩
  | succ rounds ih =>
    obtain ⟨current, hget⟩ := exists_probedSlot hsize hash n
    rw [vacantFrom, probe_succ hsize, perturb_succ]
    cases current with
    | empty =>
      exact ⟨_, by rw [hget]; rfl, h.free_empty (by omega) hget⟩
    | dummy =>
      obtain ⟨slot, heq, hfree⟩ := ih (n + 1) _ (by omega) (h.passDummy hget)
      exact ⟨slot, by rw [hget]; exact heq, hfree⟩
    | occupied slotHash entry =>
      obtain ⟨slot, heq, hfree⟩ := ih (n + 1) _ (by omega) (h.passOccupied hget)
      exact ⟨slot, by rw [hget]; exact heq, hfree⟩

include hsize in
lemma lookupVacantSlot_spec (hroom : self.HasRoom) (hash : UInt64) :
    ∃ slot, self.lookupVacantSlot hash = some slot ∧ self.Free hash slot := by
  have hspec := vacantFrom_spec hsize hroom self.rounds 0 none (Nat.zero_add _) (seen_zero hash)
  rwa [← probe_zero hsize] at hspec

/-! ### Lookup -/

/-- No slot before the first empty one leads to an entry with the hash and the key. -/
def Missing (keys : Keys α) (self : DictBackend α β) (key : α) (hash : UInt64) : Prop :=
  ∀ n < self.rounds, (∀ m < n, self.slots[self.probeAt hash m]? ≠ some .empty) →
    ∀ entry pair, self.slots[self.probeAt hash n]? = some (.occupied hash entry) →
      self.entries[entry]? = some pair → keys.valueKeyEqual pair.1 key = false

/-- What a lookup answers. -/
def Answers (keys : Keys α) (self : DictBackend α β) (key : α) (hash : UInt64) :
    SlotLookup → Prop
  | .found entry => ∃ (slot : ℕ) (pair : α × β), self.slots[slot]? = some (.occupied hash entry) ∧
    self.entries[entry]? = some pair ∧ keys.valueKeyEqual pair.1 key = true
  | .vacant slot => (self.HasRoom → self.Free hash slot) ∧ Missing keys self key hash

include hsize in
lemma slotFrom_spec {key : α} {hash : UInt64}
    (hentries : ∀ (slot : ℕ) entryHash entry, self.slots[slot]? = some (.occupied entryHash entry) →
      entry < self.entries.length)
    (rounds n : ℕ) (firstDummy : Option ℕ) (hn : n + rounds = self.rounds)
    (h : self.Seen hash n firstDummy)
    (hmiss : ∀ m < n, ∀ entry pair, self.slots[self.probeAt hash m]? = some (.occupied hash entry) →
      self.entries[entry]? = some pair → keys.valueKeyEqual pair.1 key = false) :
    ∃ result, self.slotFrom keys key hash rounds (self.probeAt hash n)
      (hash.toNat >>> (perturbShift * n)) firstDummy = some result ∧
        Answers keys self key hash result := by
  induction rounds generalizing n firstDummy with
  | zero =>
    refine ⟨.vacant _, rfl, fun hroom => h.free_end hsize hn hroom _, fun m hm _ => ?_⟩
    exact hmiss m (by omega)
  | succ rounds ih =>
    obtain ⟨current, hget⟩ := exists_probedSlot hsize hash n
    rw [slotFrom, probe_succ hsize, perturb_succ]
    have hpass : ∀ {other : DictSlot}, self.slots[self.probeAt hash n]? = some other →
        (∀ entry pair, other = .occupied hash entry → self.entries[entry]? = some pair →
          keys.valueKeyEqual pair.1 key = false) →
        ∀ m < n + 1, ∀ entry pair,
          self.slots[self.probeAt hash m]? = some (.occupied hash entry) →
            self.entries[entry]? = some pair → keys.valueKeyEqual pair.1 key = false := by
      intro other hother hno m hm entry pair hoccupied
      obtain hlt | rfl := Nat.lt_succ_iff_lt_or_eq.1 hm
      · exact hmiss m hlt entry pair hoccupied
      · exact hno entry pair (Option.some.inj (hother.symm.trans hoccupied))
    cases current with
    | empty =>
      refine ⟨.vacant (firstDummy.getD (self.probeAt hash n)), by rw [hget]; rfl,
        fun _ => h.free_empty (by omega) hget, ?_⟩
      intro m hm hused entry pair hoccupied
      exact hmiss m (lt_of_first_empty hget hused hoccupied) entry pair hoccupied
    | dummy =>
      obtain ⟨result, heq, hanswers⟩ := ih (n + 1) _ (by omega) (h.passDummy hget)
        (hpass hget fun _ _ heq => nomatch heq)
      exact ⟨result, by rw [hget]; exact heq, hanswers⟩
    | occupied slotHash entry =>
      have hlt := hentries _ _ _ hget
      have hentry := List.getElem?_eq_getElem hlt
      have hnext := fun hno => ih (n + 1) _ (by omega) (h.passOccupied hget) (hpass hget hno)
      rw [hget, Option.bind_eq_bind, Option.bind_some]
      by_cases hsame : slotHash = hash
      · subst hsame
        simp only [if_true, hentry, Option.bind_eq_bind, Option.bind_some]
        by_cases hequal : keys.valueKeyEqual self.entries[entry].1 key = true
        · rw [if_pos hequal]
          exact ⟨_, rfl, _, _, hget, hentry, hequal⟩
        · rw [if_neg hequal]
          refine hnext fun other pair hother hpair => ?_
          obtain ⟨-, rfl⟩ := DictSlot.occupied.inj hother
          obtain rfl := Option.some.inj (hentry.symm.trans hpair)
          exact Bool.eq_false_iff.2 hequal
      · simp only [if_neg hsame]
        exact hnext fun other pair hother => absurd (DictSlot.occupied.inj hother).1 hsame

include hsize in
/-- The candidates for a hash: every entry that a used slot of its probe sequence leads to. -/
lemma candidatesFrom_spec {hash : UInt64} (rounds n : ℕ) (candidates : List ℕ)
    (hn : n + rounds = self.rounds)
    (hsound : ∀ entry ∈ candidates, ∃ slot : ℕ, self.slots[slot]? = some (.occupied hash entry))
    (hcomplete : ∀ m < n, ∀ entry, self.slots[self.probeAt hash m]? = some (.occupied hash entry) →
      entry ∈ candidates) :
    ∃ result, self.candidatesFrom hash rounds (self.probeAt hash n)
        (hash.toNat >>> (perturbShift * n)) candidates = some result ∧
      (∀ entry ∈ result, ∃ slot : ℕ, self.slots[slot]? = some (.occupied hash entry)) ∧
      ∀ m < self.rounds, (∀ j < m, self.slots[self.probeAt hash j]? ≠ some .empty) →
        ∀ entry, self.slots[self.probeAt hash m]? = some (.occupied hash entry) →
          entry ∈ result := by
  induction rounds generalizing n candidates with
  | zero => exact ⟨candidates, rfl, hsound, fun m hm _ => hcomplete m (by omega)⟩
  | succ rounds ih =>
    obtain ⟨current, hget⟩ := exists_probedSlot hsize hash n
    rw [candidatesFrom, probe_succ hsize, perturb_succ]
    cases current with
    | empty =>
      refine ⟨candidates, by rw [hget]; rfl, hsound, fun m hm hused entry hoccupied => ?_⟩
      exact hcomplete m (lt_of_first_empty hget hused hoccupied) entry hoccupied
    | dummy =>
      obtain ⟨result, heq, hresult⟩ := ih (n + 1) candidates (by omega) hsound
        fun m hm entry hoccupied => by
          obtain hlt | rfl := Nat.lt_succ_iff_lt_or_eq.1 hm
          · exact hcomplete m hlt entry hoccupied
          · rw [hget] at hoccupied
            cases hoccupied
      exact ⟨result, by rw [hget]; exact heq, hresult⟩
    | occupied slotHash entry =>
      have hnext := ih (n + 1) (if slotHash = hash then candidates ++ [entry] else candidates)
        (by omega) (fun other hother => by
          split at hother
          · rename_i hsame
            obtain hother | hother := List.mem_append.1 hother
            · exact hsound other hother
            · rw [List.mem_singleton.1 hother, ← hsame]
              exact ⟨_, hget⟩
          · exact hsound other hother)
        fun m hm other hoccupied => by
          obtain hlt | rfl := Nat.lt_succ_iff_lt_or_eq.1 hm
          · have hmem := hcomplete m hlt other hoccupied
            split
            · exact List.mem_append_left _ hmem
            · exact hmem
          · obtain ⟨rfl, rfl⟩ := DictSlot.occupied.inj (Option.some.inj (hget.symm.trans hoccupied))
            rw [if_pos rfl]
            exact List.mem_append_right _ (List.mem_singleton_self _)
      obtain ⟨result, heq, hresult⟩ := hnext
      exact ⟨result, by rw [hget]; exact heq, hresult⟩

end Probing

section Lookup

variable (h : Linked keys self)

include h in
lemma Linked.entry_lt {slot entry : ℕ} {hash : UInt64}
    (hslot : self.slots[slot]? = some (.occupied hash entry)) : entry < self.entries.length :=
  lt_of_hashAt h.hashes_length ((h.occupied _ _ _).1 hslot).1

/-- What a lookup finds: an entry with the hash and the key, or that there is none. -/
def Finds (keys : Keys α) (self : DictBackend α β) (key : α) (hash : UInt64) :
    SlotLookup → Prop
  | .found entry => self.hashAt entry = some hash ∧
    ∃ pair, self.entries[entry]? = some pair ∧ keys.valueKeyEqual pair.1 key = true
  | .vacant slot => (self.HasRoom → self.Free hash slot) ∧
    ∀ entry pair, self.hashAt entry = some hash → self.entries[entry]? = some pair →
      keys.valueKeyEqual pair.1 key = false

lemma Table.lookupSlot_spec (h : Table keys self) {k : ℕ} (hsize : self.slots.length = 2 ^ k)
    (key : α) (hash : UInt64) :
    ∃ result, self.lookupSlot keys key hash = some result ∧ Finds keys self key hash result := by
  have hlinked := h.toLinked
  obtain ⟨result, heq, hanswers⟩ := @slotFrom_spec _ _ keys self k hsize key hash
    (fun _ _ _ => hlinked.entry_lt) self.rounds 0 none (Nat.zero_add _) (seen_zero hash)
    (fun m hm => absurd hm (Nat.not_lt_zero m))
  rw [← probe_zero hsize] at heq
  refine ⟨result, heq, ?_⟩
  cases result with
  | found entry =>
    obtain ⟨slot, pair, hslot, hpair, hequal⟩ := hanswers
    exact ⟨((hlinked.occupied _ _ _).1 hslot).1, pair, hpair, hequal⟩
  | vacant slot =>
    obtain ⟨hfree, hmissing⟩ := hanswers
    refine ⟨hfree, fun entry pair hhash hpair => ?_⟩
    obtain ⟨at_slot, hat⟩ := Option.isSome_iff_exists.1 (h.slotted entry (by rw [hhash]; rfl))
    obtain ⟨n, hn, hprobe, hused⟩ := hlinked.reaches entry hash at_slot hhash hat
    refine hmissing n hn hused entry pair ?_ hpair
    rw [hprobe]
    exact (hlinked.occupied _ _ _).2 ⟨hhash, hat⟩

/-- An entry whose hash is stored has a slot, so there are slots. -/
lemma Table.slots_ne_nil (h : Table keys self) {entry : ℕ} {hash : UInt64}
    (hhash : self.hashAt entry = some hash) : self.slots ≠ [] := by
  obtain ⟨slot, hat⟩ := Option.isSome_iff_exists.1 (h.slotted entry (by rw [hhash]; rfl))
  have hslot := (h.occupied _ _ _).2 ⟨hhash, hat⟩
  intro hnil
  rw [hnil] at hslot
  cases hslot

lemma Table.candidateIndicesForHash_spec (h : Table keys self) (hash : UInt64) :
    ∃ result, self.candidateIndicesForHash keys hash = some result ∧
      (∀ entry ∈ result, entry < self.entries.length) ∧
      ∀ entry, self.hashAt entry = some hash → entry ∈ result := by
  have hlinked := h.toLinked
  rw [candidateIndicesForHash]
  by_cases hnil : self.entries = []
  · refine ⟨[], by rw [hnil]; rfl, fun _ hmem => (nomatch hmem), fun entry hhash => ?_⟩
    have hlt := lt_of_hashAt hlinked.hashes_length hhash
    rw [hnil] at hlt
    exact absurd hlt (Nat.not_lt_zero _)
  rw [if_neg (by simpa using hnil)]
  by_cases hne : self.slots = []
  · refine ⟨_, by rw [hne]; rfl, fun entry hmem => ?_, fun entry hhash =>
      absurd hne (h.slots_ne_nil hhash)⟩
    obtain ⟨⟨pair, index⟩, hfilter, rfl⟩ := List.mem_map.1 hmem
    have hget := List.mem_zipIdx_iff_getElem?.1 (List.mem_filter.1 hfilter).1
    exact (List.getElem?_eq_some_iff.1 hget).1
  · obtain ⟨k, hk⟩ := h.size.resolve_left hne
    obtain ⟨result, heq, hsound, hcomplete⟩ := @candidatesFrom_spec _ _ self k hk hash self.rounds 0
      [] (Nat.zero_add _) (fun _ hmem => (nomatch hmem)) fun m hm => absurd hm (Nat.not_lt_zero m)
    rw [← probe_zero hk] at heq
    have hisEmpty : self.slots.isEmpty = false := by simpa using hne
    refine ⟨result, ?_, fun entry hmem => ?_, fun entry hhash => ?_⟩
    · rw [hisEmpty]
      exact heq
    · obtain ⟨slot, hslot⟩ := hsound entry hmem
      exact hlinked.entry_lt hslot
    · obtain ⟨slot, hat⟩ := Option.isSome_iff_exists.1 (h.slotted entry (by rw [hhash]; rfl))
      obtain ⟨n, hn, hprobe, hused⟩ := hlinked.reaches entry hash slot hhash hat
      refine hcomplete n hn hused entry ?_
      rw [hprobe]
      exact (hlinked.occupied _ _ _).2 ⟨hhash, hat⟩

end Lookup

/-! ## Placing an entry -/

section Place

variable {k : ℕ} (hsize : self.slots.length = 2 ^ k)

lemma hasRoom_of_filled (hfilled : self.filled = self.slots.countP DictSlot.isUsed)
    (hlt : self.filled < self.slots.length) : self.HasRoom := by
  by_contra hroom
  have hall : ∀ slot ∈ self.slots, slot.isUsed = true := by
    intro slot hslot
    obtain ⟨index, hindex, rfl⟩ := List.getElem_of_mem hslot
    cases hvalue : self.slots[index] with
    | empty => exact absurd ⟨index, .inl (by rw [List.getElem?_eq_getElem hindex, hvalue])⟩ hroom
    | dummy => rfl
    | occupied hash entry => rfl
  rw [hfilled, List.countP_eq_length.2 hall] at hlt
  exact absurd hlt (lt_irrefl _)

/-- The slots of an entry and of the others, where a free slot is given to an entry without one. -/
lemma Linked.place (h : Linked keys self) {after : DictBackend α β} {entry slot : ℕ}
    {hash : UInt64} (hfree : self.Free hash slot)
    (hslots : after.slots = self.slots.set slot (.occupied hash entry))
    (hhash : after.hashAt entry = some hash) (hslot : after.slotAt entry = some slot)
    (hunplaced : self.slotAt entry = none)
    (hashes : ∀ other, other ≠ entry → after.hashAt other = self.hashAt other)
    (slots : ∀ other, other ≠ entry → after.slotAt other = self.slotAt other)
    (hfilled : after.filled = if self.slots[slot]? = some .empty then self.filled + 1
      else self.filled)
    (hhashes : after.entryHashes.length = after.entries.length)
    (hlength : after.entrySlots.length = after.entries.length)
    (hunhashed : ∀ entry pair, after.entries[entry]? = some pair → after.hashAt entry = none →
      keys.valueLookupHash pair.1 = none) : Linked keys after := by
  obtain ⟨old, hold, hnot⟩ := hfree.exists_slot
  have hlt := (List.getElem?_eq_some_iff.1 hold).1
  have hnotOccupied : ∀ other otherHash, self.slots[slot]? ≠ some (.occupied otherHash other) := by
    rintro other otherHash hoccupied
    obtain rfl := Option.some.inj (hold.symm.trans hoccupied)
    cases hnot
  have hlen : after.slots.length = self.slots.length := by rw [hslots, List.length_set]
  have hget : ∀ other, after.slots[other]? =
      if other = slot then some (.occupied hash entry) else self.slots[other]? := by
    intro other
    rw [hslots, List.getElem?_set]
    by_cases hsame : other = slot
    · rw [if_pos hsame.symm, if_pos hlt, if_pos hsame]
    · rw [if_neg (Ne.symm hsame), if_neg hsame]
  have hreaches : ∀ {otherHash other}, self.Reaches otherHash other →
      after.Reaches otherHash other := by
    refine fun hreached => hreached.of_empty hlen fun other hempty => ?_
    rw [hget] at hempty
    split at hempty
    · cases hempty
    · exact hempty
  refine ⟨hhashes, hlength, ?_, ?_, fun other otherHash otherEntry => ?_,
    fun other otherSlot hother => ?_,
    fun other otherHash otherSlot hother hotherSlot => ?_, hunhashed⟩
  · obtain hnil | ⟨k, hk⟩ := h.size
    · rw [hnil] at hlt
      exact absurd hlt (Nat.not_lt_zero _)
    · exact .inr ⟨k, hlen.trans hk⟩
  · rw [hfilled, hslots, List.countP_set hlt, h.filled_eq]
    have hgetElem := List.getElem?_eq_getElem hlt
    obtain hempty | hdummy := hfree.1
    · obtain hvalue := Option.some.inj (hgetElem.symm.trans hempty)
      rw [if_pos hempty, hvalue]
      rfl
    · obtain hvalue := Option.some.inj (hgetElem.symm.trans hdummy)
      have hpos : 0 < self.slots.countP DictSlot.isUsed :=
        List.countP_pos_iff.2 ⟨.dummy, List.mem_of_getElem? hdummy, rfl⟩
      rw [if_neg (by rw [hdummy]; exact fun heq => by cases heq), hvalue]
      simp [DictSlot.isUsed]
      omega
  · rw [hget]
    by_cases hsame : otherEntry = entry
    · subst hsame
      rw [hhash, hslot]
      split
      · rename_i hother
        subst hother
        simp
      · rename_i hother
        refine iff_of_false (fun hoccupied => ?_) fun heq => hother (Option.some.inj heq.2).symm
        rw [h.occupied, hunplaced] at hoccupied
        cases hoccupied.2
    · rw [hashes _ hsame, slots _ hsame]
      split
      · rename_i hother
        refine iff_of_false (fun heq => ?_) fun hentry => ?_
        · exact hsame (DictSlot.occupied.inj (Option.some.inj heq)).2.symm
        · exact hnotOccupied _ _ (hother ▸ (h.occupied _ _ _).2 hentry)
      · exact h.occupied other otherHash otherEntry
  · by_cases hsame : other = entry
    · rw [hsame, hhash]
      rfl
    · rw [slots _ hsame] at hother
      rw [hashes _ hsame]
      exact h.hashed other otherSlot hother
  · by_cases hsame : other = entry
    · subst hsame
      obtain rfl := Option.some.inj (hhash.symm.trans hother)
      obtain rfl := Option.some.inj (hslot.symm.trans hotherSlot)
      exact hreaches hfree.2
    · rw [hashes _ hsame] at hother
      rw [slots _ hsame] at hotherSlot
      exact hreaches (h.reaches other otherHash otherSlot hother hotherSlot)

end Place

/-! ## Resizing -/

section Resize

/-- What the loop of `resize_slots` has made of the entries before a position. -/
structure Resizing (keys : Keys α) (start : DictBackend α β) (capacity i : ℕ)
    (dict : DictBackend α β) : Prop extends Linked keys dict where
  entries_eq : dict.entries = start.entries
  hashes_eq : dict.entryHashes = start.entryHashes
  used_eq : dict.used = start.entries.length
  size_eq : dict.slots.length = capacity
  fresh : ∀ slot : ℕ, dict.slots[slot]? ≠ some .dummy
  unplaced : ∀ entry, i ≤ entry → dict.slotAt entry = none
  placed : ∀ entry < i, (dict.hashAt entry).isSome → (dict.slotAt entry).isSome
  filled_count : dict.filled = (start.entryHashes.take i).countP Option.isSome
  occupied_count : dict.slots.countP DictSlot.isOccupied =
    (start.entryHashes.take i).countP Option.isSome

/-- The table before any entry is placed. -/
lemma resizing_zero (hlength : self.entryHashes.length = self.entries.length)
    (hunhashed : ∀ entry pair, self.entries[entry]? = some pair → self.hashAt entry = none →
      keys.valueLookupHash pair.1 = none) (k : ℕ) :
    Resizing keys self (2 ^ k) 0
      { self with
        slots := List.replicate (2 ^ k) .empty
        entrySlots := List.replicate self.entries.length none
        filled := 0
        used := self.entries.length } := by
  have hempty : ∀ {slot : ℕ} {value : DictSlot},
      (List.replicate (2 ^ k) DictSlot.empty)[slot]? = some value → value = .empty := by
    intro slot value hvalue
    exact List.eq_of_mem_replicate (List.mem_of_getElem? hvalue)
  have hnone : ∀ entry : ℕ, ((List.replicate self.entries.length (none : Option ℕ))[entry]?).join =
      none := by
    intro entry
    rw [List.getElem?_replicate]
    split <;> rfl
  refine ⟨⟨hlength, List.length_replicate, .inr ⟨k, List.length_replicate⟩, ?_, ?_, ?_, ?_,
    hunhashed⟩, rfl, rfl, rfl, List.length_replicate, ?_, fun entry _ => hnone entry, ?_, ?_, ?_⟩
  · rw [List.countP_replicate]
    rfl
  · refine fun slot hash entry => iff_of_false (fun hoccupied => ?_) fun hentry => ?_
    · cases hempty hoccupied
    · have hslot := hentry.2
      rw [slotAt, hnone] at hslot
      cases hslot
  · intro entry slot hslot
    rw [slotAt, hnone] at hslot
    cases hslot
  · intro entry hash slot _ hslot
    rw [slotAt, hnone] at hslot
    cases hslot
  · intro slot hdummy
    cases hempty hdummy
  · exact fun entry hlt => absurd hlt (Nat.not_lt_zero _)
  · rw [List.take_zero]
    rfl
  · rw [List.countP_replicate, List.take_zero]
    rfl

lemma countP_take_succ {hashes : List (Option UInt64)} {i : ℕ} (hi : i < hashes.length) :
    (hashes.take (i + 1)).countP Option.isSome =
      (hashes.take i).countP Option.isSome + if hashes[i].isSome then 1 else 0 := by
  rw [List.take_succ_eq_append_getElem hi, List.countP_append]
  simp [List.countP_cons]

section Resizing

variable {size i : ℕ} {dict : DictBackend α β} (h : Resizing keys self size i dict)

include h in
lemma Resizing.length_hashes : self.entryHashes.length = self.entries.length := by
  rw [← h.hashes_eq, ← h.entries_eq]
  exact h.hashes_length

include h in
lemma Resizing.hashAt_eq (hi : i < self.entryHashes.length) :
    dict.hashAt i = self.entryHashes[i] := by
  rw [hashAt, h.hashes_eq, List.getElem?_eq_getElem hi]
  rfl

include h in
/-- An entry without a hash gets no slot. -/
lemma Resizing.skipEntry (hi : i < self.entries.length) (hi' : i < self.entryHashes.length)
    (hvalue : self.entryHashes[i] = none) :
    DictBackend.placeEntry keys dict i = some dict ∧ Resizing keys self size (i + 1) dict := by
  have hpair : dict.entries[i]? = some self.entries[i] := by
    rw [h.entries_eq, List.getElem?_eq_getElem hi]
  have hdictHashes : i < dict.entryHashes.length := h.hashes_eq ▸ hi'
  have hsucc := countP_take_succ hi'
  have hhash := h.hashAt_eq hi'
  rw [hvalue] at hhash hsucc
  have hkey := h.unhashed i _ hpair hhash
  have hsame : dict.entryHashes.set i none = dict.entryHashes := by
    have hget : dict.entryHashes[i] = none := by
      rw [← hvalue]
      simp only [h.hashes_eq]
    rw [← hget, List.set_getElem_self]
  have hplace : DictBackend.placeEntry keys dict i = some dict := by
    have hjoin : (dict.entryHashes[i]?).join = none := hhash
    rw [DictBackend.placeEntry, hjoin]
    simp only [hpair, Option.bind_eq_bind, Option.bind_some, hkey, assign_eq hdictHashes, hsame]
  refine ⟨hplace, h.toLinked, h.entries_eq, h.hashes_eq, h.used_eq, h.size_eq, h.fresh,
    ?_, ?_, ?_, ?_⟩
  · exact fun entry hle => h.unplaced entry (Nat.le_of_succ_le hle)
  · intro entry hlt hsome
    obtain hlt | rfl := Nat.lt_succ_iff_lt_or_eq.1 hlt
    · exact h.placed entry hlt hsome
    · rw [hhash] at hsome
      cases hsome
  · rw [hsucc, h.filled_count]
    rfl
  · rw [hsucc, h.occupied_count]
    rfl

include h in
/-- An entry with a hash gets the first empty slot. -/
lemma Resizing.fillEntry (hi : i < self.entries.length) (hi' : i < self.entryHashes.length)
    {hash : UInt64} (hvalue : self.entryHashes[i] = some hash)
    (hcount : self.entryHashes.countP Option.isSome ≤ size) (hpow : ∃ k, size = 2 ^ k) :
    ∃ after, DictBackend.placeEntry keys dict i = some after ∧
      Resizing keys self size (i + 1) after := by
  have hsucc := countP_take_succ hi'
  have hhash := h.hashAt_eq hi'
  rw [hvalue] at hhash hsucc
  have hle : (self.entryHashes.take (i + 1)).countP Option.isSome ≤ size :=
    ((List.take_sublist _ _).countP_le).trans hcount
  have hlt : dict.filled < dict.slots.length := by
    rw [h.filled_count, h.size_eq]
    rw [hsucc] at hle
    exact hle
  obtain ⟨k, hk⟩ := hpow
  obtain ⟨slot, hlookup, hfree⟩ := lookupVacantSlot_spec (h.size_eq.trans hk)
    (hasRoom_of_filled h.filled_eq hlt) hash
  have hempty : dict.slots[slot]? = some .empty :=
    hfree.1.resolve_right (h.fresh slot)
  have hslot := (List.getElem?_eq_some_iff.1 hempty).1
  have hentrySlot : i < dict.entrySlots.length := by
    rw [h.slots_length, h.entries_eq]
    exact hi
  have hjoin : (dict.entryHashes[i]?).join = some hash := hhash
  set after : DictBackend α β := { dict with
    slots := dict.slots.set slot (.occupied hash i)
    entrySlots := dict.entrySlots.set i (some slot)
    filled := dict.filled + 1 } with hafter
  have hplace : DictBackend.placeEntry keys dict i = some after := by
    rw [DictBackend.placeEntry, hjoin]
    simp only [Option.bind_eq_bind, Option.bind_some, hlookup, assign_eq hslot,
      assign_eq hentrySlot, hafter]
  have hslotAt : ∀ other, after.slotAt other =
      if other = i then some slot else dict.slotAt other := by
    intro other
    rw [slotAt, slotAt, List.getElem?_set]
    by_cases hsame : other = i
    · rw [if_pos hsame.symm, if_pos hentrySlot, if_pos hsame]
      rfl
    · rw [if_neg (Ne.symm hsame), if_neg hsame]
  have hlinked : Linked keys after := by
    refine h.toLinked.place hfree rfl hhash ?_ (h.unplaced i le_rfl) (fun _ _ => rfl) ?_ ?_
      h.hashes_length ?_ h.unhashed
    · rw [hslotAt, if_pos rfl]
    · intro other hne
      rw [hslotAt, if_neg hne]
    · rw [if_pos hempty]
    · rw [List.length_set]
      exact h.slots_length
  refine ⟨after, hplace, hlinked, h.entries_eq, h.hashes_eq, h.used_eq, ?_, ?_, ?_, ?_, ?_, ?_⟩
  · rw [List.length_set]
    exact h.size_eq
  · intro other hdummy
    rw [List.getElem?_set] at hdummy
    split at hdummy
    · cases hdummy
    · exact h.fresh other hdummy
  · intro entry hle
    rw [hslotAt, if_neg (by omega)]
    exact h.unplaced entry (Nat.le_of_succ_le hle)
  · intro entry hentry hsome
    rw [hslotAt]
    split
    · rfl
    · exact h.placed entry (by omega) hsome
  · rw [hsucc, ← h.filled_count]
    rfl
  · have hget := Option.some.inj ((List.getElem?_eq_getElem hslot).symm.trans hempty)
    rw [List.countP_set hslot, hget, hsucc, ← h.occupied_count]
    rfl

include h in
/-- One turn of the loop. -/
lemma Resizing.placeEntry (hi : i < self.entries.length)
    (hcount : self.entryHashes.countP Option.isSome ≤ size) (hpow : ∃ k, size = 2 ^ k) :
    ∃ after, placeEntry keys dict i = some after ∧ Resizing keys self size (i + 1) after := by
  have hi' : i < self.entryHashes.length := h.length_hashes ▸ hi
  cases hvalue : self.entryHashes[i] with
  | none => exact ⟨dict, h.skipEntry hi hi' hvalue⟩
  | some hash => exact h.fillEntry hi hi' hvalue hcount hpow

end Resizing

/-- A table of the entries with their hashes, in a size that has room for them. -/
lemma resizeSlots_spec (hlength : self.entryHashes.length = self.entries.length)
    (hunhashed : ∀ entry pair, self.entries[entry]? = some pair → self.hashAt entry = none →
      keys.valueLookupHash pair.1 = none) {target : ℕ}
    (hcount : self.entryHashes.countP Option.isSome ≤ max target minTableSize) :
    ∃ dict, self.resizeSlots keys target = some dict ∧ Table keys dict ∧
      dict.entries = self.entries ∧ dict.entryHashes = self.entryHashes ∧
      dict.slots.length = nextPowerOfTwo (max target minTableSize) ∧
      dict.filled = self.entryHashes.countP Option.isSome := by
  have hle := hcount.trans (le_nextPowerOfTwo _)
  obtain ⟨k, hk⟩ := nextPowerOfTwo_eq_pow (max target minTableSize)
  have hrun : ∀ i ≤ self.entries.length, ∃ dict,
      (List.range i).foldlM (placeEntry keys)
        { self with
          slots := List.replicate (nextPowerOfTwo (max target minTableSize)) .empty
          entrySlots := List.replicate self.entries.length none
          filled := 0
          used := self.entries.length } = some dict ∧
        Resizing keys self (nextPowerOfTwo (max target minTableSize)) i dict := by
    intro i hi
    induction i with
    | zero =>
      refine ⟨_, rfl, ?_⟩
      rw [hk]
      exact resizing_zero hlength hunhashed k
    | succ i ih =>
      obtain ⟨dict, hfold, hresizing⟩ := ih (Nat.le_of_succ_le hi)
      obtain ⟨after, hplace, hafter⟩ := hresizing.placeEntry hi hle ⟨k, hk⟩
      refine ⟨after, ?_, hafter⟩
      rw [List.range_succ, List.foldlM_append, hfold]
      simp [hplace]
  obtain ⟨dict, hfold, hresizing⟩ := hrun self.entries.length le_rfl
  have htake : self.entryHashes.take self.entries.length = self.entryHashes := by
    rw [← hlength, List.take_length]
  refine ⟨dict, hfold, ⟨hresizing.toLinked, fun entry hsome => ?_, ?_, ?_⟩, hresizing.entries_eq,
    hresizing.hashes_eq, hresizing.size_eq, ?_⟩
  · obtain ⟨hash, hhash⟩ := Option.isSome_iff_exists.1 hsome
    have hlt := lt_of_hashAt hresizing.hashes_length hhash
    rw [hresizing.entries_eq] at hlt
    exact hresizing.placed entry hlt hsome
  · rw [hresizing.used_eq, hresizing.entries_eq]
  · rw [hresizing.occupied_count, htake, hresizing.hashes_eq]
  · rw [hresizing.filled_count, htake]

end Resize

/-! ## Stores -/

section Stores

lemma Table.count_le (h : Table keys self) :
    self.entryHashes.countP Option.isSome ≤ self.slots.length := by
  rw [← h.count]
  exact List.countP_le_length

lemma join_getElem?_append {γ : Type} (values : List (Option γ)) (value : Option γ) (i : ℕ) :
    ((values ++ [value])[i]?).join = if i = values.length then value else (values[i]?).join := by
  rw [List.getElem?_append]
  split
  · rw [if_neg (by omega)]
  · split
    · rename_i heq
      rw [heq, Nat.sub_self]
      rfl
    · rw [List.getElem?_eq_none (by simp; omega), List.getElem?_eq_none (by omega)]

/-- Changing a value changes nothing in the table. -/
lemma Table.setEntries (h : Table keys self) {entries : List (α × β)}
    (hkeys : entries.map Prod.fst = self.entries.map Prod.fst) :
    Table keys { self with entries } := by
  have hlength : entries.length = self.entries.length := by
    rw [← List.length_map Prod.fst, hkeys, List.length_map]
  refine ⟨⟨h.hashes_length.trans hlength.symm, h.slots_length.trans hlength.symm, h.size,
    h.filled_eq, h.occupied, h.hashed, h.reaches, fun entry pair hpair hnone => ?_⟩, h.slotted,
    h.used_eq.trans hlength.symm, h.count⟩
  have hkey : (self.entries.map Prod.fst)[entry]? = some pair.1 := by
    rw [← hkeys, List.getElem?_map, hpair]
    rfl
  rw [List.getElem?_map] at hkey
  obtain ⟨other, hother, hsame⟩ := Option.map_eq_some_iff.1 hkey
  rw [← hsame]
  exact h.unhashed entry other hother hnone

lemma setValueAt_spec (h : Table keys self) {entry : ℕ} {pair : α × β}
    (hpair : self.entries[entry]? = some pair) (value : β) :
    ∃ after, self.setValueAt entry value = some after ∧ Table keys after ∧
      after.entries = self.entries.set entry (pair.1, value) ∧
      after.entryHashes = self.entryHashes ∧ after.slots = self.slots := by
  refine ⟨_, by rw [setValueAt, hpair]; rfl, h.setEntries ?_, rfl, rfl, rfl⟩
  refine List.ext_getElem? fun i => ?_
  rw [List.getElem?_map, List.getElem?_map, List.getElem?_set]
  have hlt := (List.getElem?_eq_some_iff.1 hpair).1
  by_cases hsame : entry = i
  · subst hsame
    rw [if_pos rfl, if_pos hlt, hpair]
    rfl
  · rw [if_neg hsame]

/-- The appended entry has its hash and the free slot. -/
lemma pushEntry_spec (h : Table keys self) {hash : UInt64} {slot : ℕ}
    (hfree : self.Free hash slot) (key : α) (value : β) :
    ∃ after, self.pushEntry key value hash slot = some after ∧ Table keys after ∧
      after.entries = self.entries ++ [(key, value)] ∧
      after.entryHashes = self.entryHashes ++ [some hash] := by
  obtain ⟨old, hold, hnot⟩ := hfree.exists_slot
  have hslot := (List.getElem?_eq_some_iff.1 hold).1
  set after : DictBackend α β :=
    { entries := self.entries ++ [(key, value)]
      entryHashes := self.entryHashes ++ [some hash]
      entrySlots := self.entrySlots ++ [some slot]
      slots := self.slots.set slot (.occupied hash self.entries.length)
      used := self.used + 1
      filled := if old = .empty then self.filled + 1 else self.filled } with hafter
  have hpush : self.pushEntry key value hash slot = some after := by
    rw [pushEntry, hold]
    simp only [Option.bind_eq_bind, Option.bind_some, assign_eq hslot, hafter]
  have hhashAt : ∀ other, after.hashAt other =
      if other = self.entries.length then some hash else self.hashAt other := by
    intro other
    rw [hashAt, hashAt, join_getElem?_append, h.hashes_length]
  have hslotAt : ∀ other, after.slotAt other =
      if other = self.entries.length then some slot else self.slotAt other := by
    intro other
    rw [slotAt, slotAt, join_getElem?_append, h.slots_length]
  have hunplaced : self.slotAt self.entries.length = none := by
    rw [slotAt, List.getElem?_eq_none h.slots_length.le]
    rfl
  refine ⟨after, hpush, ⟨h.toLinked.place hfree rfl ?_ ?_ hunplaced ?_ ?_ ?_ ?_ ?_ ?_, ?_, ?_, ?_⟩,
    rfl, rfl⟩
  · rw [hhashAt, if_pos rfl]
  · rw [hslotAt, if_pos rfl]
  · intro other hne
    rw [hhashAt, if_neg hne]
  · intro other hne
    rw [hslotAt, if_neg hne]
  · simp only [hafter, hold, Option.some.injEq]
  · simp [hafter, h.hashes_length]
  · simp [hafter, h.slots_length]
  · intro entry pair hpair hnone
    rw [hhashAt] at hnone
    split at hnone
    · cases hnone
    · rename_i hne
      refine h.unhashed entry pair ?_ hnone
      rw [hafter, List.getElem?_append] at hpair
      split at hpair
      · exact hpair
      · rw [List.getElem?_eq_none (by simp; omega)] at hpair
        cases hpair
  · intro entry hsome
    rw [hhashAt] at hsome
    rw [hslotAt]
    split
    · rfl
    · rename_i hne
      rw [if_neg hne] at hsome
      exact h.slotted entry hsome
  · simp [hafter, h.used_eq]
  · have hget := Option.some.inj ((List.getElem?_eq_getElem hslot).symm.trans hold)
    simp only [hafter]
    rw [List.countP_set hslot, hget, hnot, List.countP_append, h.count]
    rfl

/-- What a store does to the entries and their hashes. -/
inductive Stored (keys : Keys α) (self after : DictBackend α β) (key : α) (value : β)
    (hash : UInt64) : Prop
  | update (entry : ℕ) (pair : α × β) (hhash : self.hashAt entry = some hash)
      (hpair : self.entries[entry]? = some pair) (hequal : keys.valueKeyEqual pair.1 key = true)
      (hentries : after.entries = self.entries.set entry (pair.1, value))
      (hhashes : after.entryHashes = self.entryHashes)
  | append (hnone : ∀ entry pair, self.hashAt entry = some hash →
        self.entries[entry]? = some pair → keys.valueKeyEqual pair.1 key = false)
      (hentries : after.entries = self.entries ++ [(key, value)])
      (hhashes : after.entryHashes = self.entryHashes ++ [some hash])

lemma Table.hashAt_of_entryHashes {other : DictBackend α β}
    (h : other.entryHashes = self.entryHashes) : other.hashAt = self.hashAt := by
  funext entry
  rw [hashAt, hashAt, h]

lemma insertSized_spec (h : Table keys self) (hne : self.slots ≠ []) (key : α) (value : β)
    (hash : UInt64) :
    ∃ after, self.insertWithHash keys key value hash = some after ∧ Table keys after ∧
      Stored keys self after key value hash := by
  obtain ⟨k, hk⟩ := h.size.resolve_left hne
  obtain ⟨result, hlookup, hfinds⟩ := h.lookupSlot_spec hk key hash
  have hisEmpty : self.slots.isEmpty = false := by simpa using hne
  rw [insertWithHash, hisEmpty]
  simp only [Bool.false_eq_true, if_false, Option.bind_eq_bind, Option.bind_some, hlookup]
  cases result with
  | found entry =>
    obtain ⟨hhash, pair, hpair, hequal⟩ := hfinds
    obtain ⟨after, hset, htable, hentries, hhashes, -⟩ := setValueAt_spec h hpair value
    have hget := hashAt_eq_some.1 hhash
    have hlt := (List.getElem?_eq_some_iff.1 hget).1
    have hsame : after.entryHashes.set entry (some hash) = after.entryHashes := by
      rw [hhashes, ← (List.getElem?_eq_some_iff.1 hget).2, List.set_getElem_self]
    refine ⟨after, ?_, htable, .update entry pair hhash hpair hequal hentries hhashes⟩
    simp only [hset, Option.bind_some, assign_eq (hhashes ▸ hlt : entry < after.entryHashes.length),
      hsame]
  | vacant slot =>
    obtain ⟨hfree, hnone⟩ := hfinds
    simp only
    split
    · -- the table grows, and has room for as many entries again
      have hcount := h.count_le
      obtain ⟨grown, hresize, htable, hentries, hhashes, hlength, hfilled⟩ :=
        resizeSlots_spec h.hashes_length h.unhashed
          (hcount.trans
            ((Nat.le_mul_of_pos_right _ Nat.two_pos).trans (Nat.le_max_left _ minTableSize)))
      have hsize := le_nextPowerOfTwo (max (self.slots.length * 2) minTableSize)
      rw [← hlength] at hsize
      have hpos : 0 < self.slots.length := List.length_pos_of_ne_nil hne
      have hroom : grown.HasRoom := by
        refine hasRoom_of_filled htable.filled_eq ?_
        have hmax := Nat.le_max_left (self.slots.length * 2) minTableSize
        omega
      obtain ⟨j, hj⟩ := nextPowerOfTwo_eq_pow (max (self.slots.length * 2) minTableSize)
      obtain ⟨vacant, hvacant, hvacantFree⟩ :=
        lookupVacantSlot_spec (hlength.trans hj) hroom hash
      obtain ⟨after, hpush, hafter, hafterEntries, hafterHashes⟩ :=
        pushEntry_spec htable hvacantFree key value
      refine ⟨after, ?_, hafter, .append hnone (hafterEntries.trans (by rw [hentries]))
        (hafterHashes.trans (by rw [hhashes]))⟩
      simp only [hresize, Option.bind_some, hvacant, hpush]
    · rename_i husable
      have hroom : self.HasRoom := by
        refine hasRoom_of_filled h.filled_eq ?_
        have hnumerator : loadNumerator = 2 := rfl
        have hdenominator : loadDenominator = 3 := rfl
        rw [hnumerator, hdenominator] at husable
        omega
      obtain ⟨after, hpush, hafter, hentries, hhashes⟩ := pushEntry_spec h (hfree hroom) key value
      exact ⟨after, hpush, hafter, .append hnone hentries hhashes⟩

/-- A store under a hash finds the entry with the hash and the key, or appends one. -/
lemma insertWithHash_spec (h : Table keys self) (key : α) (value : β) (hash : UInt64) :
    ∃ after, self.insertWithHash keys key value hash = some after ∧ Table keys after ∧
      Stored keys self after key value hash := by
  by_cases hne : self.slots = []
  · have hcount : self.entryHashes.countP Option.isSome ≤ max minTableSize minTableSize := by
      have hle := h.count_le
      rw [hne] at hle
      exact hle.trans (Nat.zero_le _)
    obtain ⟨sized, hresize, htable, hentries, hhashes, hlength, -⟩ :=
      resizeSlots_spec h.hashes_length h.unhashed hcount
    have hsized : sized.slots ≠ [] := by
      intro hnil
      have hle := le_nextPowerOfTwo (max minTableSize minTableSize)
      rw [← hlength, hnil] at hle
      exact absurd hle (by decide)
    obtain ⟨after, hinsert, hafter, hstored⟩ := insertSized_spec htable hsized key value hash
    refine ⟨after, ?_, hafter, ?_⟩
    · rw [insertWithHash] at hinsert ⊢
      rw [hne]
      have hisEmpty : sized.slots.isEmpty = false := by simpa using hsized
      simp only [hisEmpty, Bool.false_eq_true, if_false, Option.bind_eq_bind,
        Option.bind_some] at hinsert
      simp only [List.isEmpty_nil, if_true, hresize, Option.bind_eq_bind, Option.bind_some]
      exact hinsert
    · have hhashAt := Table.hashAt_of_entryHashes hhashes
      cases hstored with
      | update entry pair hhash hpair hequal hafterEntries hafterHashes =>
        rw [hhashAt] at hhash
        rw [hentries] at hpair hafterEntries
        exact .update entry pair hhash hpair hequal hafterEntries (hafterHashes.trans hhashes)
      | append hnone hafterEntries hafterHashes =>
        rw [hhashAt, hentries] at hnone
        rw [hentries] at hafterEntries
        exact .append hnone hafterEntries (hafterHashes.trans (by rw [hhashes]))
  · exact insertSized_spec h hne key value hash

/-- An entry without a hash gets no slot. -/
lemma Table.pushUnhashed (h : Table keys self) {key : α} (hkey : keys.valueLookupHash key = none)
    (value : β) : Table keys
      { self with
        entries := self.entries ++ [(key, value)]
        entryHashes := self.entryHashes ++ [none]
        entrySlots := self.entrySlots ++ [none]
        used := self.entries.length + 1 } := by
  set after : DictBackend α β :=
    { self with
      entries := self.entries ++ [(key, value)]
      entryHashes := self.entryHashes ++ [none]
      entrySlots := self.entrySlots ++ [none]
      used := self.entries.length + 1 } with hafter
  have hjoin : ∀ {γ : Type} {values : List (Option γ)} (i : ℕ),
      ((values ++ [none])[i]?).join = (values[i]?).join := by
    intro γ values i
    rw [join_getElem?_append]
    split
    · rename_i heq
      rw [heq, List.getElem?_eq_none le_rfl]
      rfl
    · rfl
  have hhashAt : ∀ entry, after.hashAt entry = self.hashAt entry := fun entry => hjoin entry
  have hslotAt : ∀ entry, after.slotAt entry = self.slotAt entry := fun entry => hjoin entry
  refine ⟨⟨by simp [hafter, h.hashes_length], by simp [hafter, h.slots_length], h.size, h.filled_eq,
    fun slot hash entry => ?_, fun entry slot hslot => ?_, fun entry hash slot hhash hslot => ?_,
    fun entry pair hpair hnone => ?_⟩, fun entry hsome => ?_, by simp [hafter], ?_⟩
  · rw [hhashAt, hslotAt]
    exact h.occupied slot hash entry
  · rw [hslotAt] at hslot
    rw [hhashAt]
    exact h.hashed entry slot hslot
  · rw [hhashAt] at hhash
    rw [hslotAt] at hslot
    exact h.reaches entry hash slot hhash hslot
  · rw [hhashAt] at hnone
    rw [hafter, List.getElem?_append] at hpair
    split at hpair
    · exact h.unhashed entry pair hpair hnone
    · obtain rfl := List.mem_singleton.1 (List.mem_of_getElem? hpair)
      exact hkey
  · rw [hhashAt] at hsome
    rw [hslotAt]
    exact h.slotted entry hsome
  · simp only [hafter, List.countP_append, h.count]
    rfl

end Stores

/-! ## Removals -/

section Removals

/-- The slot of an entry whose position moves down. -/
def shiftSlot (removedIndex : ℕ) : DictSlot → DictSlot
  | .occupied hash entry => .occupied hash (if removedIndex < entry then entry - 1 else entry)
  | slot => slot

lemma isUsed_shiftSlot (removedIndex : ℕ) (slot : DictSlot) :
    (shiftSlot removedIndex slot).isUsed = slot.isUsed := by
  cases slot <;> rfl

lemma isOccupied_shiftSlot (removedIndex : ℕ) (slot : DictSlot) :
    (shiftSlot removedIndex slot).isOccupied = slot.isOccupied := by
  cases slot <;> rfl

lemma adjustSlot_getElem? (removedIndex : ℕ) (slots : List DictSlot) (slotIndex slot : ℕ) :
    (adjustSlot removedIndex slots (some slotIndex))[slot]? =
      if slot = slotIndex then (slots[slot]?).map (shiftSlot removedIndex) else slots[slot]? := by
  by_cases hsame : slot = slotIndex
  · subst hsame
    rw [if_pos rfl, adjustSlot]
    cases hvalue : slots[slot]? with
    | none => simpa using hvalue
    | some value =>
      have hlt := (List.getElem?_eq_some_iff.1 hvalue).1
      cases value with
      | empty => exact hvalue
      | dummy => exact hvalue
      | occupied hash entry =>
        simp only [Option.map_some, shiftSlot]
        split
        · rw [List.getElem?_set, if_pos rfl, if_pos hlt]
        · exact hvalue
  · rw [if_neg hsame, adjustSlot]
    split
    · split
      · rw [List.getElem?_set, if_neg (Ne.symm hsame)]
      · rfl
    · rfl

/-- The loop shifts each slot of the list, which names no slot twice. -/
lemma foldl_adjustSlot (removedIndex : ℕ) (entrySlots : List (Option ℕ)) (slots : List DictSlot)
    (hdistinct : ∀ i j slot : ℕ, entrySlots[i]? = some (some slot) →
      entrySlots[j]? = some (some slot) → i = j) (slot : ℕ) :
    (entrySlots.foldl (adjustSlot removedIndex) slots)[slot]? =
      if some slot ∈ entrySlots then (slots[slot]?).map (shiftSlot removedIndex)
      else slots[slot]? := by
  induction entrySlots generalizing slots with
  | nil => simp
  | cons first entrySlots ih =>
    have htail : ∀ i j slot : ℕ, entrySlots[i]? = some (some slot) →
        entrySlots[j]? = some (some slot) → i = j := by
      intro i j slot hi hj
      have hsucc := hdistinct (i + 1) (j + 1) slot hi hj
      omega
    rw [List.foldl_cons, ih _ htail]
    cases first with
    | none => simp [adjustSlot]
    | some slotIndex =>
      rw [adjustSlot_getElem?]
      by_cases hsame : slot = slotIndex
      · subst hsame
        have hnot : some slot ∉ entrySlots := by
          intro hmem
          obtain ⟨j, hj⟩ := List.mem_iff_getElem?.1 hmem
          have hzero := hdistinct 0 (j + 1) slot rfl hj
          omega
        rw [if_neg hnot, if_pos rfl, if_pos List.mem_cons_self]
      · have hiff : some slot ∈ some slotIndex :: entrySlots ↔ some slot ∈ entrySlots := by
          simp [hsame]
        rw [if_neg hsame]
        simp only [hiff]

/-- The old position of an entry. -/
def oldIndex (removedIndex entry : ℕ) : ℕ := if entry < removedIndex then entry else entry + 1

lemma getElem?_eraseIdx_oldIndex {γ : Type} (values : List γ) (removedIndex entry : ℕ) :
    (values.eraseIdx removedIndex)[entry]? = values[oldIndex removedIndex entry]? := by
  rw [List.getElem?_eraseIdx, oldIndex]
  split <;> rfl

/-- The table is rebuilt once an entry is gone. -/
def Resizes (self : DictBackend α β) : Prop :=
  self.used < self.filled - self.used ∨
    (minTableSize < self.slots.length ∧ self.used * 8 ≤ self.slots.length)

/-- The slots that a removal leaves, before the table may be rebuilt. -/
structure Erases (before after : DictBackend α β) (removedIndex : ℕ) : Prop where
  entries_eq : after.entries = before.entries.eraseIdx removedIndex
  hashes_eq : after.entryHashes = before.entryHashes.eraseIdx removedIndex
  slots_eq : after.entrySlots = before.entrySlots.eraseIdx removedIndex
  filled_eq : after.filled = before.filled
  used_eq : after.used = after.entries.length
  slot : ∀ slot : ℕ, after.slots[slot]? =
    if before.slotAt removedIndex = some slot then some .dummy
    else (before.slots[slot]?).map (shiftSlot removedIndex)

/-- The slot of an entry is occupied by it. -/
lemma Linked.occupied_of_slotAt (h : Linked keys self) {entry slot : ℕ}
    (hat : self.slotAt entry = some slot) :
    ∃ hash, self.slots[slot]? = some (.occupied hash entry) := by
  obtain ⟨hash, hhash⟩ := Option.isSome_iff_exists.1 (h.hashed _ _ hat)
  exact ⟨hash, (h.occupied _ _ _).2 ⟨hhash, hat⟩⟩

lemma oldIndex_ne (removedIndex entry : ℕ) : oldIndex removedIndex entry ≠ removedIndex := by
  unfold oldIndex
  split <;> omega

section Erases

variable {after : DictBackend α β} {removedIndex : ℕ} (herases : Erases self after removedIndex)

include herases in
lemma Erases.slots_map (h : Linked keys self) :
    after.slots = (match self.slotAt removedIndex with
      | some slot => self.slots.set slot .dummy
      | none => self.slots).map (shiftSlot removedIndex) := by
  refine List.ext_getElem? fun slot => ?_
  rw [herases.slot, List.getElem?_map]
  cases hat : self.slotAt removedIndex with
  | none => rw [if_neg fun heq => nomatch heq]
  | some removedSlot =>
    obtain ⟨hash, hslot⟩ := h.occupied_of_slotAt hat
    simp only [Option.some.injEq]
    rw [List.getElem?_set]
    by_cases hsame : removedSlot = slot
    · rw [if_pos hsame, if_pos hsame, if_pos (List.getElem?_eq_some_iff.1 hslot).1]
      rfl
    · rw [if_neg hsame, if_neg hsame]

include herases in
lemma Erases.length_slots (h : Linked keys self) : after.slots.length = self.slots.length := by
  rw [herases.slots_map h, List.length_map]
  cases self.slotAt removedIndex with
  | none => rfl
  | some slot => exact List.length_set

include herases in
lemma Erases.hashAt_eq (entry : ℕ) :
    after.hashAt entry = self.hashAt (oldIndex removedIndex entry) := by
  rw [hashAt, herases.hashes_eq, getElem?_eraseIdx_oldIndex]
  rfl

include herases in
lemma Erases.slotAt_eq (entry : ℕ) :
    after.slotAt entry = self.slotAt (oldIndex removedIndex entry) := by
  rw [slotAt, herases.slots_eq, getElem?_eraseIdx_oldIndex]
  rfl

include herases in
lemma Erases.empty_of_empty {slot : ℕ} (hempty : after.slots[slot]? = some .empty) :
    self.slots[slot]? = some .empty := by
  rw [herases.slot] at hempty
  split at hempty
  · cases hempty
  · obtain ⟨value, hvalue, hshift⟩ := Option.map_eq_some_iff.1 hempty
    cases value <;> cases hshift
    exact hvalue

include herases in
/-- A slot leads to an entry if it led to it at its old position. -/
lemma Erases.occupied_iff (h : Linked keys self) {slot entry : ℕ} {hash : UInt64} :
    after.slots[slot]? = some (.occupied hash entry) ↔
      self.slots[slot]? = some (.occupied hash (oldIndex removedIndex entry)) := by
  rw [herases.slot]
  split
  · rename_i hat
    refine iff_of_false (fun heq => by cases heq) fun hslot => ?_
    obtain ⟨removedHash, hremovedSlot⟩ := h.occupied_of_slotAt hat
    rw [hremovedSlot] at hslot
    exact oldIndex_ne _ entry (DictSlot.occupied.inj (Option.some.inj hslot)).2.symm
  · rename_i hat
    have hne : ∀ otherHash other, self.slots[slot]? = some (.occupied otherHash other) →
        other ≠ removedIndex := by
      rintro otherHash other hslot rfl
      exact hat ((h.occupied _ _ _).1 hslot).2
    constructor
    · intro hmap
      obtain ⟨value, hvalue, hshift⟩ := Option.map_eq_some_iff.1 hmap
      cases value with
      | empty => cases hshift
      | dummy => cases hshift
      | occupied otherHash other =>
        obtain ⟨rfl, rfl⟩ := DictSlot.occupied.inj hshift
        have hother := hne _ _ hvalue
        rw [hvalue, oldIndex]
        congr 2
        split <;> split <;> omega
    · intro hslot
      rw [hslot]
      simp only [Option.map_some, shiftSlot, oldIndex]
      congr 2
      split <;> split <;> omega

include herases in
lemma Erases.countP (h : Linked keys self) {p : DictSlot → Bool}
    (hshift : ∀ slot, p (shiftSlot removedIndex slot) = p slot) :
    after.slots.countP p = match self.slotAt removedIndex with
      | some slot => (self.slots.set slot .dummy).countP p
      | none => self.slots.countP p := by
  rw [herases.slots_map h, List.countP_map, show p ∘ shiftSlot removedIndex = p from funext hshift]
  cases self.slotAt removedIndex <;> rfl

include herases in
lemma Erases.countP_isUsed (h : Linked keys self) :
    after.slots.countP DictSlot.isUsed = self.slots.countP DictSlot.isUsed := by
  rw [herases.countP h (isUsed_shiftSlot _)]
  cases hat : self.slotAt removedIndex with
  | none => rfl
  | some slot =>
    obtain ⟨hash, hslot⟩ := h.occupied_of_slotAt hat
    obtain ⟨hslotLt, hget⟩ := List.getElem?_eq_some_iff.1 hslot
    have hpos : 0 < self.slots.countP DictSlot.isUsed :=
      List.countP_pos_iff.2 ⟨_, List.mem_of_getElem? hslot, rfl⟩
    simp only
    rw [List.countP_set hslotLt, hget]
    simp [DictSlot.isUsed]
    omega

include herases in
lemma Erases.countP_isOccupied (h : Linked keys self) :
    after.slots.countP DictSlot.isOccupied + (if (self.slotAt removedIndex).isSome then 1 else 0) =
      self.slots.countP DictSlot.isOccupied := by
  rw [herases.countP h (isOccupied_shiftSlot _)]
  cases hat : self.slotAt removedIndex with
  | none => rfl
  | some slot =>
    obtain ⟨hash, hslot⟩ := h.occupied_of_slotAt hat
    obtain ⟨hslotLt, hget⟩ := List.getElem?_eq_some_iff.1 hslot
    have hpos : 0 < self.slots.countP DictSlot.isOccupied :=
      List.countP_pos_iff.2 ⟨_, List.mem_of_getElem? hslot, rfl⟩
    simp only
    rw [List.countP_set hslotLt, hget]
    simp [DictSlot.isOccupied]
    omega

end Erases

lemma Table.erase (h : Table keys self) {after : DictBackend α β} {removedIndex : ℕ}
    (hlt : removedIndex < self.entries.length) (herases : Erases self after removedIndex) :
    Table keys after := by
  have hlinked := h.toLinked
  have hlength := herases.length_slots hlinked
  have hentriesLength : after.entries.length = self.entries.length - 1 := by
    rw [herases.entries_eq, List.length_eraseIdx_of_lt hlt]
  refine ⟨⟨?_, ?_, ?_, ?_, fun slot hash entry => ?_, fun entry slot hslot => ?_,
    fun entry hash slot hhash hslot => ?_, fun entry pair hpair hnone => ?_⟩, fun entry hsome => ?_,
    herases.used_eq, ?_⟩
  · rw [hentriesLength, herases.hashes_eq,
      List.length_eraseIdx_of_lt (h.hashes_length.symm ▸ hlt), h.hashes_length]
  · rw [hentriesLength, herases.slots_eq,
      List.length_eraseIdx_of_lt (h.slots_length.symm ▸ hlt), h.slots_length]
  · obtain hnil | ⟨k, hk⟩ := h.size
    · refine .inl (List.eq_nil_of_length_eq_zero ?_)
      rw [hlength, hnil]
      rfl
    · exact .inr ⟨k, hlength.trans hk⟩
  · rw [herases.filled_eq, h.filled_eq, herases.countP_isUsed hlinked]
  · rw [herases.hashAt_eq, herases.slotAt_eq, ← h.occupied, herases.occupied_iff hlinked]
  · rw [herases.slotAt_eq] at hslot
    rw [herases.hashAt_eq]
    exact h.hashed _ slot hslot
  · rw [herases.hashAt_eq] at hhash
    rw [herases.slotAt_eq] at hslot
    exact (h.reaches _ hash slot hhash hslot).of_empty hlength
      fun _ hempty => herases.empty_of_empty hempty
  · rw [herases.hashAt_eq] at hnone
    rw [herases.entries_eq, getElem?_eraseIdx_oldIndex] at hpair
    exact h.unhashed _ pair hpair hnone
  · rw [herases.hashAt_eq] at hsome
    rw [herases.slotAt_eq]
    exact h.slotted _ hsome
  · -- The removed entry has a hash exactly where it has a slot.
    have hhashLt : removedIndex < self.entryHashes.length := h.hashes_length.symm ▸ hlt
    have hhash : self.hashAt removedIndex = self.entryHashes[removedIndex] := by
      rw [hashAt, List.getElem?_eq_getElem hhashLt]
      rfl
    have hsome : (self.entryHashes[removedIndex]).isSome = (self.slotAt removedIndex).isSome := by
      rw [← hhash, Bool.eq_iff_iff]
      refine ⟨h.slotted _, fun hsome => ?_⟩
      obtain ⟨slot, hslot⟩ := Option.isSome_iff_exists.1 hsome
      exact h.hashed _ _ hslot
    have hcount := (List.getElem_cons_eraseIdx_perm hhashLt).countP_eq Option.isSome
    rw [List.countP_cons, ← herases.hashes_eq, ← h.count, hsome,
      ← herases.countP_isOccupied hlinked] at hcount
    exact (Nat.add_right_cancel hcount).symm

/-- No two entries have one slot. -/
lemma Linked.slot_unique (h : Linked keys self) {a b slot : ℕ} (ha : self.slotAt a = some slot)
    (hb : self.slotAt b = some slot) : a = b := by
  obtain ⟨hashA, hslotA⟩ := h.occupied_of_slotAt ha
  obtain ⟨hashB, hslotB⟩ := h.occupied_of_slotAt hb
  rw [hslotA] at hslotB
  exact (DictSlot.occupied.inj (Option.some.inj hslotB)).2

lemma later_slotAt {index slot : ℕ} :
    some slot ∈ (self.entrySlots.eraseIdx index).drop index ↔
      ∃ entry, index < entry ∧ self.slotAt entry = some slot := by
  have hget : ∀ i, ((self.entrySlots.eraseIdx index).drop index)[i]? =
      self.entrySlots[index + i + 1]? := by
    intro i
    rw [List.getElem?_drop, List.getElem?_eraseIdx, if_neg (by omega)]
  rw [List.mem_iff_getElem?]
  simp only [hget, slotAt_eq_some]
  constructor
  · rintro ⟨i, hi⟩
    exact ⟨index + i + 1, by omega, hi⟩
  · rintro ⟨entry, hlt, hentry⟩
    refine ⟨entry - index - 1, ?_⟩
    rwa [show index + (entry - index - 1) + 1 = entry by omega]

lemma map_shiftSlot_eq (h : Linked keys self) {index slot : ℕ}
    (hlater : ∀ entry, index < entry → self.slotAt entry ≠ some slot) :
    (self.slots[slot]?).map (shiftSlot index) = self.slots[slot]? := by
  cases hvalue : self.slots[slot]? with
  | none => rfl
  | some value =>
    cases value with
    | empty => rfl
    | dummy => rfl
    | occupied hash entry =>
      have hentry := ((h.occupied _ _ _).1 hvalue).2
      have hle : ¬index < entry := fun hlt => hlater entry hlt hentry
      simp [shiftSlot, hle]

/-- A removal adjusts the slots where the entry has one, or no later entry has one. -/
lemma eraseEntry_erases (h : Table keys self) {index : ℕ}
    (hkeep : (self.slotAt index).isSome ∨ ∀ entry, index < entry → self.slotAt entry = none) :
    Erases self (self.eraseEntry index (self.slotAt index)) index := by
  cases hat : self.slotAt index with
  | none =>
    have hlater := hkeep.resolve_left (by rw [hat]; exact Bool.false_ne_true)
    refine ⟨rfl, rfl, rfl, rfl, rfl, fun slot => ?_⟩
    rw [hat, if_neg fun heq => nomatch heq]
    refine (map_shiftSlot_eq h.toLinked fun entry hlt => ?_).symm
    rw [hlater entry hlt]
    exact fun heq => by cases heq
  | some removedSlot =>
    obtain ⟨hash, hslot⟩ := h.toLinked.occupied_of_slotAt hat
    have hremove : self.removeSlotForEntry index removedSlot =
        { self with slots := self.slots.set removedSlot .dummy } := by
      rw [removeSlotForEntry, hslot]
      simp
    have hdistinct : ∀ i j slot : ℕ,
        ((self.entrySlots.eraseIdx index).drop index)[i]? = some (some slot) →
          ((self.entrySlots.eraseIdx index).drop index)[j]? = some (some slot) → i = j := by
      intro i j slot hi hj
      rw [List.getElem?_drop, List.getElem?_eraseIdx, if_neg (by omega)] at hi hj
      have hsame := h.toLinked.slot_unique (slotAt_eq_some.2 hi) (slotAt_eq_some.2 hj)
      omega
    have hlt := (List.getElem?_eq_some_iff.1 hslot).1
    have herase : self.eraseEntry index (some removedSlot) =
        { self with
          entries := self.entries.eraseIdx index
          entryHashes := self.entryHashes.eraseIdx index
          entrySlots := self.entrySlots.eraseIdx index
          slots := ((self.entrySlots.eraseIdx index).drop index).foldl (adjustSlot index)
            (self.slots.set removedSlot .dummy)
          used := (self.entries.eraseIdx index).length } := by
      simp [eraseEntry, hremove, adjustSlotIndicesAfterRemove]
    rw [herase]
    refine ⟨rfl, rfl, rfl, rfl, rfl, fun slot => ?_⟩
    · change (((self.entrySlots.eraseIdx index).drop index).foldl (adjustSlot index)
        (self.slots.set removedSlot .dummy))[slot]? = _
      rw [foldl_adjustSlot index _ _ hdistinct, hat, List.getElem?_set]
      by_cases hsame : removedSlot = slot
      · have hdummy : (some DictSlot.dummy).map (shiftSlot index) = some .dummy := rfl
        rw [if_pos hsame, if_pos hlt, if_pos (congrArg some hsame), hdummy, ite_self]
      · rw [if_neg hsame, if_neg fun heq => hsame (Option.some.inj heq)]
        split
        · rfl
        · rename_i hnot
          refine (map_shiftSlot_eq h.toLinked fun entry hentry heq => ?_).symm
          exact hnot (later_slotAt.2 ⟨entry, hentry, heq⟩)

lemma table_empty : Table keys (empty : DictBackend α β) :=
  ⟨⟨rfl, rfl, .inl rfl, rfl, fun _ _ _ => ⟨fun h => (nomatch h), fun h => (nomatch h.1)⟩,
    fun _ _ h => (nomatch h), fun _ _ _ h => (nomatch h), fun _ _ h => (nomatch h)⟩,
    fun _ h => (nomatch h), rfl, rfl⟩

lemma empty_of_entries_nil (h : self.entryHashes.length = self.entries.length)
    (hnil : self.entries = []) : self.entryHashes = [] := by
  rw [hnil] at h
  exact List.eq_nil_of_length_eq_zero h

/-- The table after a removal, where it was right before it was looked at or is rebuilt. -/
lemma maybeResizeAfterRemove_spec
    (hlength : self.entryHashes.length = self.entries.length)
    (hunhashed : ∀ entry pair, self.entries[entry]? = some pair → self.hashAt entry = none →
      keys.valueLookupHash pair.1 = none)
    (hcount : self.entryHashes.countP Option.isSome ≤ self.slots.length)
    (hused : self.used = self.entries.length)
    (hkeep : Table keys self ∨ self.entries = [] ∨ self.Resizes) :
    ∃ after, self.maybeResizeAfterRemove keys = some after ∧ Table keys after ∧
      after.entries = self.entries ∧ after.entryHashes = self.entryHashes := by
  rw [maybeResizeAfterRemove]
  by_cases hnil : self.entries = []
  · rw [if_pos (by rw [hnil]; rfl)]
    refine ⟨_, rfl, table_empty, hnil.symm, ?_⟩
    exact (empty_of_entries_nil hlength hnil).symm
  rw [if_neg (by simpa using hnil)]
  split
  · obtain ⟨after, hresize, htable, hentries, hhashes, -⟩ :=
      resizeSlots_spec hlength hunhashed
        (hcount.trans ((Nat.le_max_left _ minTableSize).trans (Nat.le_max_left _ minTableSize)))
    exact ⟨after, hresize, htable, hentries, hhashes⟩
  · rename_i hfew
    have hsame : ¬self.Resizes → Table keys self :=
      fun hnot => hkeep.resolve_right fun hor => hor.elim hnil hnot
    split
    · rename_i hsmall
      refine ⟨self, rfl, hsame ?_, rfl, rfl⟩
      rintro (hmany | ⟨hlarge, -⟩)
      · exact hfew hmany
      · exact absurd hsmall (Nat.not_le.2 hlarge)
    · rename_i hlarge
      split
      · rename_i hload
        have hle : self.entryHashes.countP Option.isSome ≤ self.entries.length :=
          hlength ▸ List.countP_le_length
        obtain ⟨after, hresize, htable, hentries, hhashes, -⟩ :=
          resizeSlots_spec hlength hunhashed (hle.trans
            ((show self.entries.length ≤ self.slots.length / 2 by omega).trans
              (Nat.le_max_left _ minTableSize)))
        exact ⟨after, hresize, htable, hentries, hhashes⟩
      · rename_i hload
        refine ⟨self, rfl, hsame ?_, rfl, rfl⟩
        rintro (hmany | ⟨-, hmany⟩)
        · exact hfew hmany
        · exact hload hmany

/-- A removal keeps the slots right: the entry has a slot, or no entry after it has one, or the
table is rebuilt. -/
def Keeps (self : DictBackend α β) (index : ℕ) : Prop :=
  (self.slotAt index).isSome ∨ (∀ entry, index < entry → self.slotAt entry = none) ∨
    (self.eraseEntry index none).Resizes

/-- The table is rebuilt when one of its entries is removed. -/
def Rebuilds (self : DictBackend α β) : Prop :=
  self.entries.length - 1 < self.filled - (self.entries.length - 1) ∨
    (minTableSize < self.slots.length ∧ (self.entries.length - 1) * 8 ≤ self.slots.length)

/-- An entry whose removal keeps the slots right, by the hashes that are stored. -/
def StoredRemovable (self : DictBackend α β) (index : ℕ) : Prop :=
  (self.hashAt index).isSome ∨ (∀ later, index < later → self.hashAt later = none) ∨ self.Rebuilds

lemma Table.keeps (h : Table keys self) {index : ℕ} (hlt : index < self.entries.length)
    (hremovable : self.StoredRemovable index) : self.Keeps index := by
  obtain hhashed | hlater | hrebuilds := hremovable
  · exact .inl (h.slotted index hhashed)
  · refine .inr (.inl fun later hlt => ?_)
    cases hslot : self.slotAt later with
    | none => rfl
    | some slot =>
      have hhashed := h.hashed later slot hslot
      rw [hlater later hlt] at hhashed
      cases hhashed
  · refine .inr (.inr ?_)
    have hused : (self.eraseEntry index none).used = self.entries.length - 1 :=
      List.length_eraseIdx_of_lt hlt
    rw [Resizes, hused]
    exact hrebuilds

lemma remove_spec (h : Table keys self) {index : ℕ} {removed : α × β}
    (hremoved : self.entries[index]? = some removed) (hkeep : self.Keeps index) :
    ∃ after, self.remove keys index = some (after, removed) ∧ Table keys after ∧
      after.entries = self.entries.eraseIdx index ∧
      after.entryHashes = self.entryHashes.eraseIdx index := by
  have hlt := (List.getElem?_eq_some_iff.1 hremoved).1
  have hslotLt : index < self.entrySlots.length := h.slots_length.symm ▸ hlt
  have hhashLt : index < self.entryHashes.length := h.hashes_length.symm ▸ hlt
  have hslot : self.entrySlots[index]? = some (self.slotAt index) := by
    rw [slotAt, List.getElem?_eq_getElem hslotLt]
    rfl
  set erased := self.eraseEntry index (self.slotAt index) with herased
  have hfields : erased.entries = self.entries.eraseIdx index ∧
      erased.entryHashes = self.entryHashes.eraseIdx index ∧
      erased.used = erased.entries.length ∧ erased.slots.length = self.slots.length := by
    rw [herased]
    cases hat : self.slotAt index with
    | none => exact ⟨rfl, rfl, rfl, rfl⟩
    | some slot =>
      have htable := (eraseEntry_erases h (.inl (by rw [hat]; rfl) : _ ∨ _))
      rw [hat] at htable
      exact ⟨htable.entries_eq, htable.hashes_eq, htable.used_eq, htable.length_slots h.toLinked⟩
  obtain ⟨hentries, hhashes, hused, hslots⟩ := hfields
  have hlength : erased.entryHashes.length = erased.entries.length := by
    rw [hentries, hhashes, List.length_eraseIdx_of_lt hlt, List.length_eraseIdx_of_lt hhashLt,
      h.hashes_length]
  have hunhashed : ∀ entry pair, erased.entries[entry]? = some pair → erased.hashAt entry = none →
      keys.valueLookupHash pair.1 = none := by
    intro entry pair hpair hnone
    rw [hashAt, hhashes, getElem?_eraseIdx_oldIndex] at hnone
    rw [hentries, getElem?_eraseIdx_oldIndex] at hpair
    exact h.unhashed _ pair hpair hnone
  have hcount : erased.entryHashes.countP Option.isSome ≤ erased.slots.length := by
    rw [hhashes, hslots]
    exact (List.eraseIdx_sublist _ _).countP_le.trans h.count_le
  have hright : Table keys erased ∨ erased.entries = [] ∨ erased.Resizes := by
    by_cases hadjusted : (self.slotAt index).isSome ∨
        ∀ entry, index < entry → self.slotAt entry = none
    · exact .inl (h.erase hlt (eraseEntry_erases h hadjusted))
    · refine .inr (.inr ?_)
      have hnone : self.slotAt index = none := by
        cases hat : self.slotAt index with
        | none => rfl
        | some slot => exact absurd (.inl (by rw [hat]; rfl)) hadjusted
      rw [herased, hnone]
      obtain hsome | hlater | hresizes := hkeep
      · exact absurd (.inl hsome) hadjusted
      · exact absurd (.inr hlater) hadjusted
      · exact hresizes
  obtain ⟨after, hresize, htable, hafterEntries, hafterHashes⟩ :=
    maybeResizeAfterRemove_spec hlength hunhashed hcount hused hright
  refine ⟨after, ?_, htable, hafterEntries.trans hentries, hafterHashes.trans hhashes⟩
  rw [remove, hslot]
  simp only [Option.bind_eq_bind, Option.bind_some, hremoved, List.getElem?_eq_getElem hhashLt,
    ← herased, hresize]

lemma rebuildSlots_spec (hlength : self.entryHashes.length = self.entries.length)
    (hunhashed : ∀ entry pair, self.entries[entry]? = some pair → self.hashAt entry = none →
      keys.valueLookupHash pair.1 = none) :
    ∃ after, self.rebuildSlots keys = some after ∧ Table keys after ∧
      after.entries = self.entries ∧ after.entryHashes = self.entryHashes := by
  rw [rebuildSlots]
  by_cases hnil : self.entries = []
  · rw [if_pos (by rw [hnil]; rfl)]
    refine ⟨_, rfl, table_empty, hnil.symm, ?_⟩
    exact (empty_of_entries_nil hlength hnil).symm
  · rw [if_neg (by simpa using hnil)]
    have hle : self.entryHashes.countP Option.isSome ≤ self.entries.length :=
      hlength ▸ List.countP_le_length
    obtain ⟨after, hresize, htable, hentries, hhashes, -⟩ :=
      resizeSlots_spec hlength hunhashed (hle.trans
        ((Nat.le_max_left _ minTableSize).trans (Nat.le_max_left _ minTableSize)))
    exact ⟨after, hresize, htable, hentries, hhashes⟩

end Removals

end DictBackend

end Pyrs
