import Bvstk.Cache.RegistryInvariant
import Bvstk.Library.Replica

/-! # The registry and its past

The journal only keeps the last changes. Beside the registry stand all changes so
far and all states it has been in; while the counters have not wrapped, a
generation and a revision name at most one state of a device.
-/
namespace Bvstk.Cache
open OverwriteRing Replica

/-- Whether an operation installs a catalog. -/
def RegistryOp.isDefinition (r : CacheRegistry) (op : RegistryOp) : Bool :=
  match op with
  | .define .. => (op.run r).1 == .ok
  | _ => false

/-- A registry with everything that has happened to it. -/
structure CacheHistory where
  registry : CacheRegistry
  past : List CacheRegistry
  log : List CacheChange
  definitions : ℕ

def cacheHistoryInit : CacheHistory := ⟨cacheInit,[cacheInit],[],0⟩

/-- The operation's registry joins the past; a record it journaled joins the log. -/
def CacheHistory.run (y : CacheHistory) (op : RegistryOp) : CacheHistory :=
  let r := (op.run y.registry).2
  { registry := r
    past := y.past ++ [r]
    log := if r.head = y.registry.head then y.log
      else y.log ++ [r.journal (y.registry.head % cacheJournalSize)]
    definitions := y.definitions + if op.isDefinition y.registry then 1 else 0 }

/-- The counters have not wrapped. -/
def CacheHistory.Bounded (y : CacheHistory) : Prop := y.definitions < 2^32 ∧ y.log.length < 2^64

theorem CacheHistory.Bounded.of_run {y : CacheHistory} {op : RegistryOp} (h : (y.run op).Bounded) : y.Bounded := by
  obtain ⟨hd,hl⟩ := h
  refine ⟨(Nat.le_add_right _ _).trans_lt hd,?_⟩
  refine Nat.lt_of_le_of_lt ?_ hl
  simp only [CacheHistory.run]
  split
  · exact le_rfl
  · simp

theorem generation_run (r : CacheRegistry) (op : RegistryOp) :
    (op.run r).2.generation = if op.isDefinition r then nextNonzero r.generation else r.generation := by
  cases op with
  | define handle subsystem name count state describe =>
    simp only [RegistryOp.isDefinition, RegistryOp.run, cacheDefine]
    split
    · rfl
    · split
      · rfl
      · split
        · rfl
        · cases defineSlot r handle with
          | none => rfl
          | some slot =>
            dsimp only
            cases stage describe count 0 [] with
            | none => rfl
            | some entries => rfl
  | put handle index value valid source updatedMs nowMs =>
    simp only [RegistryOp.isDefinition, RegistryOp.run, cachePut]
    cases device r handle with
    | none => rfl
    | some d =>
      dsimp only
      cases d.entries[index]? with
      | none => rfl
      | some e =>
        dsimp only
        split
        · rfl
        · split <;> rfl
  | presence handle state nowMs =>
    simp only [RegistryOp.isDefinition, RegistryOp.run, cachePresence]
    cases device r handle with
    | none => rfl
    | some d =>
      dsimp only
      split
      · rfl
      · split <;> rfl

/-! ## Devices after an operation -/

theorem device_record {r : CacheRegistry} {h : ℕ} {d d' : CacheSnapshot} {c : CacheChange}
    (hd : device r h = some d) (hc : Changes h d d' c) (k : ℕ) :
    device (r.record h d' c) k = if k = h then some d' else device r k := by
  obtain ⟨h0,hle,hslot,hg⟩ := device_eq_some hd
  have hg' : d'.generation ≠ 0 := hc.generation_eq ▸ hg
  by_cases hk : k = h
  · subst hk
    simp [device, CacheRegistry.record, h0, hle, hg']
  · by_cases hk0 : k = 0
    · simp [device, hk0, Ne.symm h0]
    · have hne : k - 1 ≠ h - 1 := by omega
      simp only [device, CacheRegistry.record, Function.update_of_ne hne, if_neg hk]

theorem device_install {r : CacheRegistry} {slot : ℕ} (hslot : slot < cacheDevicesMax) {d : CacheSnapshot}
    (hg : d.generation ≠ 0) (k : ℕ) :
    device (r.install slot d) k = if k = slot + 1 then some d else device r k := by
  by_cases hk : k = slot + 1
  · subst hk
    have hle : slot + 1 ≤ cacheDevicesMax := hslot
    simp [device, CacheRegistry.install, hle, hg]
  · by_cases hk0 : k = 0
    · simp [device, hk0]
    · have hne : k - 1 ≠ slot := by omega
      simp only [device, CacheRegistry.install, Function.update_of_ne hne, if_neg hk]

/-! ## The invariant -/

/-- Two devices are the same state under the same name. -/
def CacheSnapshot.Same (d d' : CacheSnapshot) : Prop :=
  d.copy = d'.copy ∧ d.subsystem = d'.subsystem ∧ d.device = d'.device

structure CacheHistory.Sound (y : CacheHistory) : Prop where
  wellFormed : y.registry.WellFormed
  generation : y.registry.generation = y.definitions
  head : y.registry.head = y.log.length
  journal : Retains cacheJournalSize y.registry.journal y.log
  current : y.registry ∈ y.past
  issued : ∀ R ∈ y.past, ∀ h d, device R h = some d → d.generation ≤ y.definitions
  revisions : ∀ h d, device y.registry h = some d → d.revision ≤ y.log.length
  /-- A past state of a current catalog is an earlier revision, or the current state. -/
  earlier : ∀ R ∈ y.past, ∀ h d d', device R h = some d → device y.registry h = some d' →
    d.generation = d'.generation → d.revision ≤ d'.revision ∧ (d.revision = d'.revision → d.Same d')
  unique : ∀ R ∈ y.past, ∀ R' ∈ y.past, ∀ h d d', device R h = some d → device R' h = some d' →
    d.generation = d'.generation → d.revision = d'.revision → d.Same d'

theorem device_init (h : ℕ) : device cacheInit h = none := if_neg fun hh => hh.2.2 rfl

theorem cacheHistory_init_sound : cacheHistoryInit.Sound where
  wellFormed := init_wellFormed
  generation := rfl
  head := rfl
  journal := retains_nil _
  current := List.mem_singleton_self _
  issued := by
    intro R hR h d hd
    rw [List.mem_singleton.mp hR, device_init] at hd
    contradiction
  revisions := by
    intro h d hd
    rw [show cacheHistoryInit.registry = cacheInit from rfl, device_init] at hd
    contradiction
  earlier := by
    intro R hR h d d' hd
    rw [List.mem_singleton.mp hR, device_init] at hd
    contradiction
  unique := by
    intro R hR R' hR' h d d' hd
    rw [List.mem_singleton.mp hR, device_init] at hd
    contradiction

theorem CacheSnapshot.Same.refl (d : CacheSnapshot) : d.Same d := ⟨rfl,rfl,rfl⟩

theorem CacheSnapshot.Same.symm {d d' : CacheSnapshot} (h : d.Same d') : d'.Same d :=
  ⟨h.1.symm,h.2.1.symm,h.2.2.symm⟩

/-- The past grows by the new state; it is enough to compare that one with the rest. -/
theorem unique_snoc {past : List CacheRegistry} {r : CacheRegistry}
    (hold : ∀ R ∈ past, ∀ R' ∈ past, ∀ h d d', device R h = some d → device R' h = some d' →
      d.generation = d'.generation → d.revision = d'.revision → d.Same d')
    (hnew : ∀ R ∈ past, ∀ h d d', device R h = some d → device r h = some d' →
      d.generation = d'.generation → d.revision ≤ d'.revision ∧ (d.revision = d'.revision → d.Same d')) :
    ∀ R ∈ past ++ [r], ∀ R' ∈ past ++ [r], ∀ h d d', device R h = some d → device R' h = some d' →
      d.generation = d'.generation → d.revision = d'.revision → d.Same d' := by
  intro R hR R' hR' h d d' hd hd' hg hrev
  rcases List.mem_append.mp hR with hR | hR <;> rcases List.mem_append.mp hR' with hR' | hR'
  · exact hold R hR R' hR' h d d' hd hd' hg hrev
  · rw [List.mem_singleton.mp hR'] at hd'
    exact (hnew R hR h d d' hd hd' hg).2 hrev
  · rw [List.mem_singleton.mp hR] at hd
    exact ((hnew R' hR' h d' d hd' hd hg.symm).2 hrev.symm).symm
  · rw [List.mem_singleton.mp hR] at hd
    rw [List.mem_singleton.mp hR', hd] at hd'
    obtain rfl := Option.some.inj hd'
    exact .refl d

theorem nextNonzero_ne {n : ℕ} (h : n < 2^32) : nextNonzero n ≠ n := by
  unfold nextNonzero
  split <;> omega

theorem nextNonzero_succ {n : ℕ} (h : n + 1 < 2^32) : nextNonzero n = n + 1 := by
  unfold nextNonzero
  split <;> omega

/-- What an operation does to a registry and its past, counters included. -/
inductive HistoryEffect (y : CacheHistory) : CacheHistory → Prop where
  | same : HistoryEffect y ⟨y.registry,y.past ++ [y.registry],y.log,y.definitions⟩
  | changed {h : ℕ} {d d' : CacheSnapshot} {c : CacheChange} (hd : device y.registry h = some d)
      (hc : Changes h d d' c) (hhead : (y.registry.record h d' c).head = y.log.length + 1)
      (hrevision : c.revision = d.revision + 1) :
      HistoryEffect y
        ⟨y.registry.record h d' c,y.past ++ [y.registry.record h d' c],y.log ++ [c],y.definitions⟩
  | defined {slot : ℕ} {d : CacheSnapshot} (hslot : slot < cacheDevicesMax)
      (hgeneration : d.generation = y.definitions + 1) (hrevision : d.revision = 0) :
      HistoryEffect y
        ⟨y.registry.install slot d,y.past ++ [y.registry.install slot d],y.log,y.definitions + 1⟩

theorem history_effect {y : CacheHistory} (h : y.Sound) (op : RegistryOp) (hb : (y.run op).Bounded) :
    HistoryEffect y (y.run op) := by
  have heffect := run_effect h.wellFormed op
  have hgen := generation_run y.registry op
  have hne := nextNonzero_ne h.wellFormed.generation
  have hlog := hb.of_run.2
  obtain ⟨hdefs,hlen⟩ := hb
  simp only [CacheHistory.run] at hdefs hlen ⊢
  generalize hisdef : op.isDefinition y.registry = isDef at hgen hdefs ⊢
  generalize hr : (op.run y.registry).2 = r at heffect hgen hlen ⊢
  cases heffect with
  | same =>
    have hnot : isDef = false := by
      cases isDef with
      | false => rfl
      | true => exact absurd hgen.symm hne
    subst hnot
    simpa using HistoryEffect.same
  | @changed k d d' c hd hc hserial =>
    have hnot : isDef = false := by
      cases isDef with
      | false => rfl
      | true => exact absurd hgen.symm hne
    subst hnot
    have hmoved : (y.registry.record k d' c).head ≠ y.registry.head := by
      simp only [CacheRegistry.record, h.head]
      omega
    have hslot : (y.registry.record k d' c).journal (y.registry.head % cacheJournalSize) = c :=
      Function.update_self _ _ _
    rw [if_neg hmoved, hslot, List.length_append, List.length_singleton] at hlen
    have hhead : (y.registry.record k d' c).head = y.log.length + 1 := by
      simp only [CacheRegistry.record, h.head]
      exact Nat.mod_eq_of_lt hlen
    have hrev := h.revisions k d hd
    have hrevision : c.revision = d.revision + 1 := by
      rw [hc.revision]
      exact Nat.mod_eq_of_lt (by omega)
    simpa [if_neg hmoved, hslot] using HistoryEffect.changed hd hc hhead hrevision
  | @defined slot d hslot hvalid hgeneration hrevision hnames =>
    have hyes : isDef = true := by
      cases isDef with
      | true => rfl
      | false => exact absurd hgen hne
    subst hyes
    have hnext : d.generation = y.definitions + 1 := by
      rw [hgeneration, h.generation]
      exact nextNonzero_succ hdefs
    simpa [CacheRegistry.install] using HistoryEffect.defined hslot hnext hrevision

theorem CacheHistory.Sound.run {y : CacheHistory} (h : y.Sound) (op : RegistryOp) (hb : (y.run op).Bounded) :
    (y.run op).Sound := by
  have hwf : (y.run op).registry.WellFormed := (run_effect h.wellFormed op).wellFormed h.wellFormed
  have heffect := history_effect h op hb
  generalize y.run op = z at heffect hwf hb ⊢
  cases heffect with
  | same =>
    refine ⟨hwf,h.generation,h.head,h.journal,by simp,?_,h.revisions,?_,?_⟩
    · intro R hR k d hd
      rcases List.mem_append.mp hR with hR | hR
      · exact h.issued R hR k d hd
      · exact h.issued _ h.current k d (List.mem_singleton.mp hR ▸ hd)
    · intro R hR k d d' hd hd' hg
      rcases List.mem_append.mp hR with hR | hR
      · exact h.earlier R hR k d d' hd hd' hg
      · exact h.earlier _ h.current k d d' (List.mem_singleton.mp hR ▸ hd) hd' hg
    · exact unique_snoc h.unique h.earlier
  | @changed k d d' c hd hc hhead hrevision =>
    have hdev := device_record hd hc
    have hrev' : d'.revision = d.revision + 1 := hc.revision_eq.trans hrevision
    have hearlier : ∀ R ∈ y.past, ∀ j e e', device R j = some e →
        device (y.registry.record k d' c) j = some e' → e.generation = e'.generation →
        e.revision ≤ e'.revision ∧ (e.revision = e'.revision → e.Same e') := by
      intro R hR j e e' he he' hg
      rw [hdev] at he'
      split at he'
      · rename_i hj
        subst hj
        obtain rfl := Option.some.inj he'
        -- every earlier state of the changed device has a smaller revision
        have hle := (h.earlier R hR j e d he hd (hg.trans hc.generation_eq)).1
        exact ⟨by omega,fun heq => by omega⟩
      · exact h.earlier R hR j e e' he he' hg
    refine ⟨hwf,h.generation,hhead.trans (by simp),?_,by simp,?_,?_,?_,unique_snoc h.unique hearlier⟩
    · have hpush := h.journal.push c
      rw [← h.head] at hpush
      exact hpush
    · intro R hR j e he
      rcases List.mem_append.mp hR with hR | hR
      · exact h.issued R hR j e he
      · rw [List.mem_singleton.mp hR, hdev] at he
        split at he
        · obtain rfl := Option.some.inj he
          exact hc.generation_eq ▸ h.issued _ h.current k d hd
        · exact h.issued _ h.current j e he
    · intro j e he
      rw [hdev] at he
      rw [List.length_append, List.length_singleton]
      split at he
      · obtain rfl := Option.some.inj he
        have := h.revisions k d hd
        omega
      · exact (h.revisions j e he).trans (Nat.le_succ _)
    · intro R hR j e e' he he' hg
      rcases List.mem_append.mp hR with hR | hR
      · exact hearlier R hR j e e' he he' hg
      · rw [List.mem_singleton.mp hR, he'] at he
        obtain rfl := Option.some.inj he
        exact ⟨le_rfl,fun _ => .refl _⟩
  | @defined slot d hslot hgeneration hrevision =>
    have hdev := device_install hslot (hgeneration ▸ Nat.succ_ne_zero _ : d.generation ≠ 0) (r := y.registry)
    have hearlier : ∀ R ∈ y.past, ∀ j e e', device R j = some e →
        device (y.registry.install slot d) j = some e' → e.generation = e'.generation →
        e.revision ≤ e'.revision ∧ (e.revision = e'.revision → e.Same e') := by
      intro R hR j e e' he he' hg
      rw [hdev] at he'
      split at he'
      · -- the new generation has never been seen
        obtain rfl := Option.some.inj he'
        have hissued := h.issued R hR j e he
        omega
      · exact h.earlier R hR j e e' he he' hg
    refine ⟨hwf,?_,h.head,h.journal,by simp,?_,?_,?_,unique_snoc h.unique hearlier⟩
    · change nextNonzero y.registry.generation = y.definitions + 1
      rw [h.generation]
      exact nextNonzero_succ hb.1
    · intro R hR j e he
      rcases List.mem_append.mp hR with hR | hR
      · exact (h.issued R hR j e he).trans (Nat.le_succ _)
      · rw [List.mem_singleton.mp hR, hdev] at he
        split at he
        · obtain rfl := Option.some.inj he
          exact hgeneration.le
        · exact (h.issued _ h.current j e he).trans (Nat.le_succ _)
    · intro j e he
      rw [hdev] at he
      split at he
      · obtain rfl := Option.some.inj he
        exact hrevision ▸ Nat.zero_le _
      · exact h.revisions j e he
    · intro R hR j e e' he he' hg
      rcases List.mem_append.mp hR with hR | hR
      · exact hearlier R hR j e e' he he' hg
      · rw [List.mem_singleton.mp hR, he'] at he
        obtain rfl := Option.some.inj he
        exact ⟨le_rfl,fun _ => .refl _⟩

/-! ## Followers of one device -/

/-- A journal record is for the followers of its handle. -/
def wantedBy (h : ℕ) (c : CacheChange) : Bool := c.handle == h

/-- The device behind `h`, under this name, has been in this state. -/
def CacheHistory.Known (y : CacheHistory) (h : ℕ) (bus name : Name) (s : CacheCopy) : Prop :=
  ∃ R ∈ y.past, ∃ d, device R h = some d ∧ d.copy = s ∧ d.subsystem = bus ∧ d.device = name

theorem CacheHistory.Known.run {y : CacheHistory} {h : ℕ} {bus name : Name} {s : CacheCopy}
    (hs : y.Known h bus name s) (op : RegistryOp) : (y.run op).Known h bus name s := by
  obtain ⟨R,hR,hd⟩ := hs
  exact ⟨R,List.mem_append_left _ hR,hd⟩

/-- A generation and a revision name one state. -/
theorem CacheHistory.Sound.known_unique {y : CacheHistory} (hy : y.Sound) {h : ℕ} {bus name : Name}
    {copy : CacheCopy} (hk : y.Known h bus name copy) {R : CacheRegistry} (hR : R ∈ y.past) {d : CacheSnapshot}
    (hd : device R h = some d) (hg : d.generation = copy.generation) (hrev : d.revision = copy.revision) :
    d.copy = copy ∧ d.subsystem = bus ∧ d.device = name := by
  obtain ⟨R',hR',e,he,rfl,rfl,rfl⟩ := hk
  exact hy.unique R hR R' hR' h d e hd he hg hrev

/-- The next record of a device carries the next revision and leads to a state it was in. -/
def CacheHistory.Continues (y : CacheHistory) (h : ℕ) (bus name : Name) (s : CacheCopy) (c : CacheChange) :
    Prop :=
  c.revision = s.revision + 1 ∧ y.Known h bus name (s.apply c)

/-- `s` is what a follower of catalog `g` behind handle `h` holds when it has seen the
journal up to `cursor`: a state the device has been in, from which the rest of the
journal leads to the current one. -/
structure CacheHistory.Follower (y : CacheHistory) (h : ℕ) (bus name : Name) (g cursor : ℕ) (s : CacheCopy) :
    Prop where
  generation : s.generation = g
  issued : g ≤ y.definitions
  seen : cursor ≤ y.log.length
  known : y.Known h bus name s
  tracks : ∀ d, device y.registry h = some d → d.generation = g →
    (d.subsystem = bus ∧ d.device = name) ∧
      Tracks CacheCopy.apply (y.Continues h bus name) (wantedBy h) y.log cursor s d.copy

/-- A snapshot makes a follower. -/
theorem CacheHistory.Sound.follower {y : CacheHistory} (hy : y.Sound) {h : ℕ} {d : CacheSnapshot}
    (hd : device y.registry h = some d) :
    y.Follower h d.subsystem d.device d.generation y.log.length d.copy := by
  refine ⟨rfl,hy.issued _ hy.current h d hd,le_rfl,⟨_,hy.current,d,hd,rfl,rfl,rfl⟩,?_⟩
  intro e he _
  rw [hd] at he
  obtain rfl := Option.some.inj he
  exact ⟨⟨rfl,rfl⟩,tracks_end _⟩

/-- A registry operation keeps every follower. -/
theorem CacheHistory.Follower.run {y : CacheHistory} (hy : y.Sound) {h g cursor : ℕ} {bus name : Name}
    {s : CacheCopy} (hs : y.Follower h bus name g cursor s) (op : RegistryOp) (hb : (y.run op).Bounded) :
    (y.run op).Follower h bus name g cursor s := by
  have heffect := history_effect hy op hb
  have hknown := hs.known.run op
  have hmono : ∀ s c, y.Continues h bus name s c → (y.run op).Continues h bus name s c :=
    fun s c hc => ⟨hc.1,hc.2.run op⟩
  generalize y.run op = z at heffect hknown hmono ⊢
  cases heffect with
  | same =>
    refine ⟨hs.generation,hs.issued,hs.seen,hknown,?_⟩
    intro e he hg
    exact ⟨(hs.tracks e he hg).1,(hs.tracks e he hg).2.mono hmono⟩
  | @changed k d d' c hd hc hhead hrevision =>
    have hdev := device_record hd hc
    refine ⟨hs.generation,hs.issued,hs.seen.trans (by simp),hknown,?_⟩
    intro e he hg
    have he' := he
    rw [hdev] at he
    split at he
    · rename_i hk
      subst hk
      obtain rfl := Option.some.inj he
      obtain ⟨⟨hbus,hname⟩,htracks⟩ := hs.tracks d hd (hc.generation_eq.symm.trans hg)
      have hnames : d'.subsystem = bus ∧ d'.device = name :=
        ⟨hc.subsystem.trans hbus,hc.device.trans hname⟩
      refine ⟨hnames,?_⟩
      rw [hc.copy]
      refine (htracks.mono hmono).push hs.seen (beq_iff_eq.mpr hc.handle) ⟨hrevision,?_⟩
      rw [← hc.copy]
      exact ⟨_,List.mem_append_right _ (List.mem_singleton_self _),d',he',rfl,hnames⟩
    · rename_i hk
      refine ⟨(hs.tracks e he hg).1,((hs.tracks e he hg).2.mono hmono).skip hs.seen ?_⟩
      exact beq_eq_false_iff_ne.mpr fun heq => hk (heq.symm.trans hc.handle)
  | @defined slot d hslot hgeneration hrevision =>
    have hdev := device_install hslot (hgeneration ▸ Nat.succ_ne_zero _ : d.generation ≠ 0) (r := y.registry)
    refine ⟨hs.generation,hs.issued.trans (Nat.le_succ _),hs.seen,hknown,?_⟩
    intro e he hg
    rw [hdev] at he
    split at he
    · obtain rfl := Option.some.inj he
      have := hs.issued
      omega
    · exact ⟨(hs.tracks e he hg).1,(hs.tracks e he hg).2.mono hmono⟩

/-- What a search of the journal finds, as long as the journal still has it. -/
theorem nextLoop_spec {journal : ℕ → CacheChange} {log : List CacheChange}
    (hjournal : Retains cacheJournalSize journal log) (h : ℕ) (left : ℕ) {cursor : ℕ}
    (hend : cursor + left = log.length) (hwindow : left ≤ cacheJournalSize) :
    nextLoop journal h left cursor = (.caughtUp,log.length) ∧ Quiet (wantedBy h) log cursor log.length ∨
      ∃ j c, cursor ≤ j ∧ nextLoop journal h left cursor = (.change c,j + 1) ∧ log[j]? = some c ∧
        wantedBy h c = true ∧ Quiet (wantedBy h) log cursor j := by
  induction left generalizing cursor with
  | zero =>
    have hcursor : cursor = log.length := hend
    subst hcursor
    exact Or.inl ⟨rfl,fun k a hk hlt _ => absurd hlt (not_lt.mpr hk)⟩
  | succ left ih =>
    have hget := hjournal cursor (by omega) (by omega)
    simp only [nextLoop]
    split
    · rename_i hmine
      exact Or.inr ⟨cursor,_,le_rfl,rfl,hget,beq_iff_eq.mpr hmine,fun k a hk hlt _ => absurd hlt (not_lt.mpr hk)⟩
    · rename_i hother
      have hfirst : ∀ a, log[cursor]? = some a → wantedBy h a = false := by
        intro a ha
        rw [hget] at ha
        obtain rfl := Option.some.inj ha
        exact beq_eq_false_iff_ne.mpr hother
      have hextend : ∀ j, Quiet (wantedBy h) log (cursor + 1) j → Quiet (wantedBy h) log cursor j := by
        intro j hq k a hk hlt ha
        rcases Nat.eq_or_lt_of_le hk with rfl | hk
        · exact hfirst a ha
        · exact hq k a hk hlt ha
      rcases @ih (cursor + 1) (by omega) (by omega) with ⟨hnone,hq⟩ | ⟨j,c,hj,hsome,hc,hw,hq⟩
      · exact Or.inl ⟨hnone,hextend _ hq⟩
      · exact Or.inr ⟨j,c,by omega,hsome,hc,hw,hextend _ hq⟩

/-- What `bvstk_cache_next` gives a follower: the next change of its device, the news that
there is none, or the end when the catalog is gone or the journal has moved on. -/
inductive NextEffect (y : CacheHistory) (h : ℕ) (bus name : Name) (g cursor : ℕ) (s : CacheCopy) :
    CacheNext × ℕ → Prop where
  | caughtUp {d : CacheSnapshot} (hd : device y.registry h = some d) (hcopy : d.copy = s)
      (hnames : d.subsystem = bus ∧ d.device = name) (hs : y.Follower h bus name g y.log.length s) :
      NextEffect y h bus name g cursor s (.caughtUp,y.log.length)
  | change {c : CacheChange} {j : ℕ} (hrevision : c.revision = s.revision + 1) (hrecorded : c.Recorded)
      (hs : y.Follower h bus name g (j + 1) (s.apply c)) :
      NextEffect y h bus name g cursor s (.change c,j + 1)
  | resync {reason : ℕ} : NextEffect y h bus name g cursor s (.resync reason,cursor)

theorem CacheHistory.Follower.next {y : CacheHistory} (hy : y.Sound) {h g cursor : ℕ} {bus name : Name}
    {s : CacheCopy} (hs : y.Follower h bus name g cursor s) :
    NextEffect y h bus name g cursor s (cacheNext y.registry h g cursor) := by
  unfold cacheNext
  cases hd : device y.registry h with
  | none => exact .resync
  | some d =>
    dsimp only
    split
    · exact .resync
    · rename_i hg
      have hg : d.generation = g := not_not.mp hg
      split
      · exact .resync
      · rename_i hwindow
        push Not at hwindow
        rw [hy.head] at hwindow ⊢
        obtain ⟨hnames,htracks⟩ := hs.tracks d hd hg
        rcases nextLoop_spec hy.journal h (y.log.length - cursor) (Nat.add_sub_cancel' hs.seen) hwindow.2 with
          ⟨hnone,hq⟩ | ⟨j,c,hj,hsome,hc,hw,hq⟩
        · rw [hnone]
          obtain ⟨hcopy,hend⟩ := htracks.caughtUp hs.seen hq
          refine .caughtUp hd hcopy hnames ⟨hs.generation,hs.issued,le_rfl,hs.known,?_⟩
          intro e he _
          rw [hd] at he
          obtain rfl := Option.some.inj he
          exact ⟨hnames,hend⟩
        · rw [hsome]
          obtain ⟨⟨hrevision,hknown⟩,hrest⟩ := htracks.deliver hj hq hc hw
          have hlt := (List.getElem?_eq_some_iff.mp hc).1
          have hslot := hy.journal j hlt (by omega)
          have hrecorded : c.Recorded := by
            rw [hc] at hslot
            obtain rfl := Option.some.inj hslot
            refine hy.wellFormed.recorded _ ?_
            rw [beq_iff_eq.mp hw]
            exact (device_eq_some hd).1
          refine .change hrevision hrecorded ⟨hs.generation,hs.issued,hlt,hknown,?_⟩
          intro e he _
          rw [hd] at he
          obtain rfl := Option.some.inj he
          exact ⟨hnames,hrest⟩

end Bvstk.Cache
