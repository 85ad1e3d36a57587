import Bvstk.Cache.RegistryHistory
import Bvstk.Library.Machine

/-! # The structure of every reachable registry

Names, generations, entries and the journal window, after any sequence of operations with
any arguments, and the frame of the operations that fail. The journal counters may wrap;
the generations only stay distinct while fewer than 2^32 catalogs have been installed.
-/
namespace Bvstk.Cache
open OverwriteRing Machine

/-- What callers may ask of a registry. -/
inductive RegistryRequest where
  | change (op : RegistryOp)
  | snapshot (subsystem name : Name) (nowMs : UInt64)

/-- The registry after a request, with its past; the answer is the status. -/
def registryStep (y : CacheHistory) : RegistryRequest → CacheHistory × Status
  | .change op => (y.run op,(op.run y.registry).1)
  | .snapshot subsystem name nowMs =>
    (y,if (cacheSnapshot y.registry subsystem name nowMs).isSome then .ok else .notFound)

/-- `c` was journaled by a step of the past, as change number `s`. -/
def CacheHistory.Journaled (y : CacheHistory) (s : ℕ) (c : CacheChange) : Prop :=
  ∃ R ∈ y.past, ∃ h d d', device R h = some d ∧ Changes h d d' c ∧ R.record h d' c ∈ y.past ∧
    R.head = s % 2^64 ∧ c.serial = (s + 1) % 2^64

/-- The journal and its counters, which may wrap. -/
structure CacheHistory.Kept (y : CacheHistory) : Prop where
  wellFormed : y.registry.WellFormed
  current : y.registry ∈ y.past
  head : y.registry.head = y.log.length % 2^64
  journal : Retains cacheJournalSize y.registry.journal y.log
  journaled : ∀ s c, y.log[s]? = some c → y.Journaled s c

/-- The generations issued so far, before they wrap. -/
structure CacheHistory.Issued (y : CacheHistory) : Prop where
  generation : y.registry.generation = y.definitions
  issued : ∀ i < cacheDevicesMax, (y.registry.devices i).generation ≤ y.definitions
  distinct : ∀ i < cacheDevicesMax, ∀ j < cacheDevicesMax, (y.registry.devices i).generation ≠ 0 →
    (y.registry.devices i).generation = (y.registry.devices j).generation → i = j

theorem CacheHistory.Journaled.mono {y y' : CacheHistory} {s : ℕ} {c : CacheChange} (h : y.Journaled s c)
    (hpast : ∀ R ∈ y.past, R ∈ y'.past) : y'.Journaled s c := by
  obtain ⟨R,hR,k,d,d',hd,hc,hR',hhead,hserial⟩ := h
  exact ⟨R,hpast R hR,k,d,d',hd,hc,hpast _ hR',hhead,hserial⟩

/-- A slot of the head is the slot of the change count: the journal size divides 2^64. -/
theorem head_slot (n : ℕ) : n % 2^64 % cacheJournalSize = n % cacheJournalSize :=
  Nat.mod_mod_of_dvd n ⟨2^55,by decide⟩

theorem CacheHistory.Kept.run {y : CacheHistory} (h : y.Kept) (op : RegistryOp) : (y.run op).Kept := by
  have heffect := run_effect h.wellFormed op
  have hwf := heffect.wellFormed h.wellFormed
  simp only [CacheHistory.run]
  generalize (op.run y.registry).2 = r at heffect hwf ⊢
  generalize y.definitions + (if op.isDefinition y.registry then 1 else 0) = definitions
  have hpast : ∀ R ∈ y.past, R ∈ y.past ++ [r] := fun R hR => List.mem_append_left _ hR
  have hkeep : r.head = y.registry.head → r.journal = y.registry.journal →
      (⟨r,y.past ++ [r],y.log,definitions⟩ : CacheHistory).Kept := by
    intro hhead hjournal
    refine ⟨hwf,List.mem_append_right _ (List.mem_singleton_self r),hhead.trans h.head,?_,?_⟩
    · dsimp only
      rw [hjournal]
      exact h.journal
    · exact fun s c hs => (h.journaled s c hs).mono hpast
  cases heffect with
  | same =>
    rw [if_pos rfl]
    exact hkeep rfl rfl
  | @defined slot d hslot hvalid hgeneration hrevision hnames =>
    rw [if_pos (by rfl)]
    exact hkeep rfl rfl
  | @changed k d d' c hd hc hserial =>
    have hmoved : (y.registry.record k d' c).head ≠ y.registry.head := by
      have hlt : y.registry.head < 2^64 := h.head ▸ Nat.mod_lt _ (by decide)
      simp only [CacheRegistry.record]
      omega
    have hslot : (y.registry.record k d' c).journal (y.registry.head % cacheJournalSize) = c :=
      Function.update_self _ _ _
    rw [if_neg hmoved, hslot]
    refine ⟨hwf,List.mem_append_right _ (List.mem_singleton_self _),?_,?_,?_⟩
    · simp only [CacheRegistry.record, h.head, List.length_append, List.length_singleton]
      omega
    · have hpush := h.journal.push c
      simp only [CacheRegistry.record, h.head, head_slot]
      exact hpush
    · intro s c' hs
      rcases Nat.lt_or_ge s y.log.length with hlt | hge
      · rw [List.getElem?_append_left hlt] at hs
        exact (h.journaled s c' hs).mono hpast
      · have hlen := (List.getElem?_eq_some_iff.mp hs).1
        rw [List.length_append, List.length_singleton] at hlen
        obtain rfl : s = y.log.length := by omega
        rw [List.getElem?_concat_length] at hs
        obtain rfl := Option.some.inj hs
        refine ⟨y.registry,hpast _ h.current,k,d,d',hd,hc,List.mem_append_right _ (List.mem_singleton_self _),
          h.head,?_⟩
        rw [hserial, h.head]
        omega

theorem CacheHistory.Issued.run {y : CacheHistory} (hwf : y.registry.WellFormed) (h : y.Issued) (op : RegistryOp)
    (hb : (y.run op).definitions < 2^32) : (y.run op).Issued := by
  have heffect := run_effect hwf op
  have hgeneration := generation_run y.registry op
  have hne := nextNonzero_ne hwf.generation
  simp only [CacheHistory.run] at hb ⊢
  generalize hisdef : op.isDefinition y.registry = isDef at hgeneration hb ⊢
  generalize (op.run y.registry).2 = r at heffect hgeneration ⊢
  generalize (if r.head = y.registry.head then y.log
    else y.log ++ [r.journal (y.registry.head % cacheJournalSize)]) = log
  cases isDef with
  | false =>
    -- no catalog is installed, so every generation stays
    have hsame : r.generation = y.registry.generation ∧
        ∀ i, (r.devices i).generation = (y.registry.devices i).generation := by
      cases heffect with
      | same => exact ⟨rfl,fun _ => rfl⟩
      | defined => exact absurd hgeneration hne
      | @changed k d d' c hd hc hserial =>
        obtain ⟨-,-,hget,-⟩ := device_eq_some hd
        refine ⟨rfl,fun i => ?_⟩
        by_cases hi : i = k - 1
        · subst hi
          simp only [CacheRegistry.record, Function.update_self, hget]
          exact hc.generation_eq
        · simp [CacheRegistry.record, Function.update_of_ne hi]
    refine ⟨hsame.1.trans h.generation,?_,?_⟩
    · intro i hi
      dsimp only
      rw [hsame.2]
      exact h.issued i hi
    · intro i hi j hj hg heq
      dsimp only at hg heq
      rw [hsame.2] at hg
      rw [hsame.2, hsame.2] at heq
      exact h.distinct i hi j hj hg heq
  | true =>
    cases heffect with
    | same => exact absurd hgeneration.symm hne
    | changed => exact absurd hgeneration.symm hne
    | @defined slot d hslot hvalid hnew hrevision hnames =>
      have hnext : d.generation = y.definitions + 1 := by
        rw [hnew, h.generation]
        exact nextNonzero_succ hb
      refine ⟨?_,?_,?_⟩
      · simp only [CacheRegistry.install]
        rw [← hnew, hnext]
        rfl
      · intro i hi
        by_cases his : i = slot
        · subst his
          simp only [CacheRegistry.install, Function.update_self, hnext]
          exact Nat.le_refl _
        · simp only [CacheRegistry.install, Function.update_of_ne his]
          exact Nat.le_succ_of_le (h.issued i hi)
      · intro i hi j hj hg heq
        simp only [CacheRegistry.install] at hg heq
        by_cases his : i = slot
        · by_cases hjs : j = slot
          · rw [his, hjs]
          · subst his
            have hold := h.issued j hj
            rw [Function.update_self, Function.update_of_ne hjs, hnext] at heq
            omega
        · by_cases hjs : j = slot
          · subst hjs
            have hold := h.issued i hi
            rw [Function.update_self, Function.update_of_ne his, hnext] at heq
            omega
          · rw [Function.update_of_ne his] at hg
            rw [Function.update_of_ne his, Function.update_of_ne hjs] at heq
            exact h.distinct i hi j hj hg heq

/-! ## Failures -/

/-- An operation that fails leaves the registry as it was. -/
theorem run_error {r : CacheRegistry} {op : RegistryOp} (h : (op.run r).1 ≠ .ok) : (op.run r).2 = r := by
  cases op with
  | define handle subsystem name count state describe =>
    simp only [RegistryOp.run, cacheDefine] at h ⊢
    split_ifs at h ⊢ with hargs hlive htaken
    · rfl
    · rfl
    · rfl
    · cases hslot : defineSlot r handle with
      | none => rfl
      | some slot =>
        rw [hslot] at h
        dsimp only at h ⊢
        cases hstage : stage describe count 0 [] with
        | none => rfl
        | some entries =>
          rw [hstage] at h
          exact absurd rfl h
  | put handle index value valid source updatedMs nowMs =>
    simp only [RegistryOp.run, cachePut] at h ⊢
    cases hd : device r handle with
    | none => rfl
    | some d =>
      rw [hd] at h
      dsimp only at h ⊢
      cases he : d.entries[index]? with
      | none => rfl
      | some e =>
        rw [he] at h
        dsimp only at h ⊢
        split_ifs at h ⊢ with hrange hrepeat
        · rfl
        · exact absurd rfl h
        · exact absurd rfl h
  | presence handle state nowMs =>
    simp only [RegistryOp.run, cachePresence] at h ⊢
    cases hd : device r handle with
    | none => rfl
    | some d =>
      rw [hd] at h
      dsimp only at h ⊢
      split_ifs at h ⊢ with hrange hchanged
      · rfl
      · exact absurd rfl h
      · exact absurd rfl h

/-! ## Runs -/

theorem kept_init : cacheHistoryInit.Kept where
  wellFormed := init_wellFormed
  current := List.mem_singleton_self _
  head := rfl
  journal := retains_nil _
  journaled := fun s c hs => absurd hs (by simp [cacheHistoryInit])

theorem issued_init : cacheHistoryInit.Issued where
  generation := rfl
  issued := fun _ _ => Nat.le_refl 0
  distinct := fun _ _ _ _ hg => absurd rfl hg

theorem kept_step (y : CacheHistory) (request : RegistryRequest) (h : y.Kept) : (registryStep y request).1.Kept := by
  cases request with
  | change op => exact h.run op
  | snapshot subsystem name nowMs => exact h

theorem definitions_step (y : CacheHistory) (request : RegistryRequest)
    (h : (registryStep y request).1.definitions < 2^32) : y.definitions < 2^32 := by
  cases request with
  | change op => exact Nat.lt_of_le_of_lt (Nat.le_add_right _ _) h
  | snapshot subsystem name nowMs => exact h

theorem issued_step (y : CacheHistory) (request : RegistryRequest)
    (hb : (registryStep y request).1.definitions < 2^32) (h : y.Kept ∧ y.Issued) :
    (registryStep y request).1.Kept ∧ (registryStep y request).1.Issued := by
  cases request with
  | change op => exact ⟨h.1.run op,h.2.run h.1.wellFormed op hb⟩
  | snapshot subsystem name nowMs => exact h

/-- After any sequence of requests: live devices have different names, and different
generations while fewer than 2^32 catalogs have been installed; their entries are valid and
have different identifiers; the journal holds each of the last 512 changes in its slot,
with its serial; and an operation that fails changes nothing. -/
theorem registry_structure (requests : List RegistryRequest) :
    let y := final registryStep cacheHistoryInit requests
    (∀ i < cacheDevicesMax, (y.registry.devices i).generation ≠ 0 → (y.registry.devices i).Valid) ∧
    (∀ i < cacheDevicesMax, ∀ j < cacheDevicesMax, (y.registry.devices i).generation ≠ 0 →
      (y.registry.devices j).generation ≠ 0 → (y.registry.devices i).subsystem = (y.registry.devices j).subsystem →
      (y.registry.devices i).device = (y.registry.devices j).device → i = j) ∧
    (y.definitions < 2^32 → ∀ i < cacheDevicesMax, ∀ j < cacheDevicesMax, (y.registry.devices i).generation ≠ 0 →
      (y.registry.devices i).generation = (y.registry.devices j).generation → i = j) ∧
    (∀ s, s < y.log.length → y.log.length ≤ s + cacheJournalSize →
      y.log[s]? = some (y.registry.journal (s % cacheJournalSize)) ∧
        y.Journaled s (y.registry.journal (s % cacheJournalSize))) ∧
    ∀ op : RegistryOp, (op.run y.registry).1 ≠ .ok → (op.run y.registry).2 = y.registry := by
  intro y
  have hkept : y.Kept := final_invariant (P := CacheHistory.Kept) kept_step kept_init requests
  refine ⟨hkept.wellFormed.valid,hkept.wellFormed.names,?_,?_,fun op h => run_error h⟩
  · intro hb
    have hissued : y.Kept ∧ y.Issued :=
      final_invariant_while (B := fun y : CacheHistory => y.definitions < 2^32)
        (P := fun y : CacheHistory => y.Kept ∧ y.Issued) definitions_step issued_step ⟨kept_init,issued_init⟩ hb
    exact hissued.2.distinct
  · intro s hs hwindow
    have hslot := hkept.journal s hs hwindow
    exact ⟨hslot,hkept.journaled s _ hslot⟩

end Bvstk.Cache
