import Bvstk.Cache.Catalog

/-! # Bridges to the cache registry

The part of `bvstk_cache_bridges.c` that does not depend on the service behind it: each
device of a service is a registry device, kept up to date register by register.
-/
namespace Bvstk.Cache

/-! ## The bridge -/

/-- `bvstk_cache_i2c_bridge_t` and `bvstk_cache_mdio_bridge_t`, and how often the clock was
read. -/
structure Bridge where
  registry : CacheRegistry
  handles : ℕ → ℕ
  status : Status
  ticks : ℕ

def Bridge.define (b : Bridge) (d : ℕ) (k : Catalog) (presence : ℕ) (sample : ℕ → Sample) : Bridge :=
  let (status,registry,handle) :=
    cacheDefine b.registry (b.handles d) k.subsystem k.name k.count presence (k.describe sample)
  { b with registry := registry, handles := Function.update b.handles d handle, status := status }

def Bridge.put (now : ℕ → UInt64) (b : Bridge) (d r : ℕ) (m : Sample) : Bridge :=
  { b with
    registry := (cachePut b.registry (b.handles d) r m.value m.valid (origin m.seeded) m.updatedMs (now b.ticks)).2
    ticks := b.ticks + 1 }

def Bridge.presence (now : ℕ → UInt64) (b : Bridge) (d presence : ℕ) : Bridge :=
  { b with registry := (cachePresence b.registry (b.handles d) presence (now b.ticks)).2, ticks := b.ticks + 1 }

/-- What a service exports of a device: its catalog, the samples of its registers, and the
presences that are right. -/
structure Export where
  catalog : Catalog
  sample : ℕ → Sample
  present : ℕ → Prop

/-- The samples fit the registers. -/
def Export.Fits (x : Export) : Prop :=
  (x.catalog.width ≠ 0 ∧ x.catalog.width.toNat ≤ 64) ∧ ∀ m, tooWide (x.sample m).value x.catalog.width = false

/-- The registry shows device `d`, but for the stale registers, and its presence unless it
is in doubt. -/
def Bridge.Shows (b : Bridge) (d : ℕ) (x : Export) (stale : ℕ → Prop) (doubt : Prop) : Prop :=
  ∃ dev, device b.registry (b.handles d) = some dev ∧ x.catalog.Shown x.sample stale dev ∧
    (¬doubt → x.present dev.presence.toNat)

/-- The registry shows the first `n` devices, each behind a handle of its own. -/
structure Bridge.Mirrors (b : Bridge) (n : ℕ) (x : ℕ → Export) (stale : ℕ → ℕ → Prop) (doubt : ℕ → Prop) : Prop where
  wellFormed : b.registry.WellFormed
  handles : ∀ d < n, ∀ d' < n, b.handles d = b.handles d' → d = d'
  shows : ∀ d < n, b.Shows d (x d) (stale d) (doubt d)

section
variable {b b' : Bridge} {n : ℕ} {x x' : ℕ → Export} {stale stale' : ℕ → ℕ → Prop} {doubt doubt' : ℕ → Prop}

/-- What is shown of a device, when less of it is stale or something else of it is the same. -/
theorem Bridge.Shows.congr {d : ℕ} {y y' : Export} {p p' : ℕ → Prop} {q q' : Prop} (h : b.Shows d y p q)
    (hcatalog : y'.catalog = y.catalog)
    (hsample : ∀ i < y.catalog.count, ¬p' i → ¬p i ∧
      normalize (y.catalog.describe y'.sample i) = normalize (y.catalog.describe y.sample i))
    (hpresent : ¬q' → ¬q ∧ ∀ presence, y.present presence → y'.present presence) : b.Shows d y' p' q' := by
  obtain ⟨dev,hdev,hshown,hpresence⟩ := h
  refine ⟨dev,hdev,?_,fun hsure => (hpresent hsure).2 _ (hpresence (hpresent hsure).1)⟩
  rw [hcatalog]
  refine ⟨hshown.subsystem,hshown.device,hshown.count,hshown.shape,fun i hi hcurrent => ?_⟩
  obtain ⟨hfresh,hsame⟩ := hsample i hi hcurrent
  rw [hshown.current i hi hfresh, hsame]

theorem Bridge.Mirrors.congr (h : b.Mirrors n x stale doubt) (hcatalog : ∀ d < n, (x' d).catalog = (x d).catalog)
    (hsample : ∀ d < n, ∀ i < (x d).catalog.count, ¬stale' d i → ¬stale d i ∧
      normalize ((x d).catalog.describe (x' d).sample i) = normalize ((x d).catalog.describe (x d).sample i))
    (hpresent : ∀ d < n, ¬doubt' d → ¬doubt d ∧ ∀ presence, (x d).present presence → (x' d).present presence) :
    b.Mirrors n x' stale' doubt' where
  wellFormed := h.wellFormed
  handles := h.handles
  shows := fun d hd => (h.shows d hd).congr (hcatalog d hd) (hsample d hd) (hpresent d hd)

/-- Fewer exceptions, for registers that are there. -/
theorem Bridge.Mirrors.mono (h : b.Mirrors n x stale doubt)
    (hstale : ∀ d < n, ∀ i < (x d).catalog.count, stale d i → stale' d i) (hdoubt : ∀ d, doubt d → doubt' d) :
    b.Mirrors n x stale' doubt' :=
  h.congr (fun _ _ => rfl) (fun d hd i hi hfresh => ⟨fun hs => hfresh (hstale d hd i hi hs),rfl⟩)
    fun d _ hsure => ⟨fun hd => hsure (hdoubt d hd),fun _ hp => hp⟩

/-- What is done behind the handle of one device leaves the others as they are. -/
theorem Bridge.Mirrors.update (h : b.Mirrors n x stale doubt) {d : ℕ} (hd : d < n)
    (hwellFormed : b'.registry.WellFormed) (hhandles : b'.handles = b.handles)
    (hothers : OthersKept b.registry b'.registry (b.handles d)) (hshows : b'.Shows d (x' d) (stale' d) (doubt' d))
    (hsame : ∀ d', d' ≠ d → x' d' = x d' ∧ (∀ i, stale d' i → stale' d' i) ∧ (doubt d' → doubt' d')) :
    b'.Mirrors n x' stale' doubt' where
  wellFormed := hwellFormed
  handles := hhandles ▸ h.handles
  shows := by
    intro d' hd'
    by_cases heq : d' = d
    · exact heq ▸ hshows
    · obtain ⟨hx,hstale,hdoubt⟩ := hsame d' heq
      have hold : b.Shows d' (x' d') (stale' d') (doubt' d') := (h.shows d' hd').congr (congrArg Export.catalog hx)
        (fun i _ hfresh => ⟨fun hs => hfresh (hstale i hs),by rw [hx]⟩)
        fun hsure => ⟨fun hs => hsure (hdoubt hs),fun _ hp => hx ▸ hp⟩
      obtain ⟨dev,hdev,hrest⟩ := hold
      refine ⟨dev,?_,hrest⟩
      rw [hhandles, hothers _ fun hk => heq (h.handles d' hd' d hd hk)]
      exact hdev

/-- A register that is reported as it is, or one that is not there. -/
theorem Bridge.Mirrors.put (now : ℕ → UInt64) (h : b.Mirrors n x stale doubt) {d r : ℕ} (hd : d < n)
    (hr : r < (x d).catalog.count) {m : Sample}
    (hm : normalize ((x d).catalog.entry r m) = normalize ((x d).catalog.describe (x d).sample r))
    (hfits : tooWide m.value (x d).catalog.width = false) :
    (b.put now d r m).Mirrors n x (fun d' i => stale d' i ∧ ¬(d' = d ∧ i = r)) doubt := by
  obtain ⟨dev,hdev,hshown,hpresence⟩ := h.shows d hd
  obtain ⟨dev',hdev',hshown',hsame,hothers⟩ := shown_put h.wellFormed hdev hshown hr hm hfits (now b.ticks)
  refine h.update hd ((put_effect h.wellFormed ..).wellFormed h.wellFormed) rfl hothers ?_
    fun d' hne => ⟨rfl,fun i hs => ⟨hs,fun heq => hne heq.1⟩,fun hdoubt => hdoubt⟩
  refine ⟨dev',hdev',?_,fun hsure => by rw [hsame]; exact hpresence hsure⟩
  exact ⟨hshown'.subsystem,hshown'.device,hshown'.count,hshown'.shape,fun i hi hcurrent =>
    hshown'.current i hi fun hs => hcurrent ⟨hs.1,fun heq => hs.2 heq.2⟩⟩

theorem Bridge.Mirrors.presence (now : ℕ → UInt64) (h : b.Mirrors n x stale doubt) {d presence : ℕ} (hd : d < n)
    (hle : presence ≤ presenceUnavailable) (hpresent : (x d).present presence) :
    (b.presence now d presence).Mirrors n x stale (fun d' => doubt d' ∧ d' ≠ d) := by
  obtain ⟨dev,hdev,hshown,-⟩ := h.shows d hd
  obtain ⟨dev',hdev',hshown',hset,hothers⟩ := shown_presence hdev hshown hle (now b.ticks)
  refine h.update hd ((presence_effect h.wellFormed ..).wellFormed h.wellFormed) rfl hothers ?_
    fun d' hne => ⟨rfl,fun _ hs => hs,fun hdoubt => ⟨hdoubt,hne⟩⟩
  exact ⟨dev',hdev',hshown',fun _ => hset.symm ▸ hpresent⟩

/-! ## Definitions -/

/-- Nothing is stale, or in doubt. -/
def Fresh (_ _ : ℕ) : Prop := False
def Sure (_ : ℕ) : Prop := False

/-- The registry shows every device but `d₀`, which is there under some name. -/
structure Bridge.MirrorsOthers (b : Bridge) (n : ℕ) (x : ℕ → Export) (d₀ : ℕ) : Prop where
  wellFormed : b.registry.WellFormed
  handles : ∀ d < n, ∀ d' < n, b.handles d = b.handles d' → d = d'
  live : ∃ dev, device b.registry (b.handles d₀) = some dev
  shows : ∀ d < n, d ≠ d₀ → b.Shows d (x d) (Fresh d) (Sure d)

theorem Bridge.Mirrors.others (h : b.Mirrors n x Fresh Sure) {d₀ : ℕ} (hd₀ : d₀ < n)
    (hsame : ∀ d ≠ d₀, x' d = x d) : b.MirrorsOthers n x' d₀ where
  wellFormed := h.wellFormed
  handles := h.handles
  live := by
    obtain ⟨dev,hdev,-⟩ := h.shows d₀ hd₀
    exact ⟨dev,hdev⟩
  shows := fun d hd hne => hsame d hne ▸ h.shows d hd

theorem Bridge.MirrorsOthers.put (now : ℕ → UInt64) {d₀ : ℕ} (h : b.MirrorsOthers n x d₀) (hd₀ : d₀ < n) (r : ℕ)
    (m : Sample) : (b.put now d₀ r m).MirrorsOthers n x d₀ := by
  obtain ⟨dev,hdev⟩ := h.live
  obtain ⟨hlive,hothers⟩ := put_live hdev r m.value m.valid (origin m.seeded) m.updatedMs (now b.ticks)
  refine ⟨(put_effect h.wellFormed ..).wellFormed h.wellFormed,h.handles,hlive,fun d hd hne => ?_⟩
  obtain ⟨dev',hdev',hrest⟩ := h.shows d hd hne
  refine ⟨dev',?_,hrest⟩
  exact (hothers _ fun heq => hne (h.handles d hd d₀ hd₀ heq)).trans hdev'

/-- A definition that is accepted shows the device, in the slot it has or in a free one. -/
theorem Bridge.define_shows {d₀ presence : ℕ} {y : Export} (hfits : y.Fits) (hpresent : y.present presence)
    (hok : (b.define d₀ y.catalog presence y.sample).status = .ok) :
    ∃ r' h', b.define d₀ y.catalog presence y.sample =
        { b with registry := r', handles := Function.update b.handles d₀ h', status := .ok } ∧
      (b.registry.WellFormed → r'.WellFormed) ∧ OthersKept b.registry r' h' ∧
      (b.define d₀ y.catalog presence y.sample).Shows d₀ y (fun _ => False) False ∧
      (b.handles d₀ ≠ 0 → h' = b.handles d₀) ∧ (b.handles d₀ = 0 → device b.registry h' = none) := by
  obtain ⟨r',h',hdefine⟩ : ∃ r' h', cacheDefine b.registry (b.handles d₀) y.catalog.subsystem y.catalog.name
      y.catalog.count presence (y.catalog.describe y.sample) = (.ok,r',h') :=
    ⟨_,_,Prod.ext hok rfl⟩
  obtain ⟨dev,hdev,hshown,hset,hothers,hsame,hfree⟩ := shown_define (exportable_of_define hdefine hfits.1)
    (fun i _ => hfits.2 i) hdefine
  have heffect := define_effect (r := b.registry) (b.handles d₀) y.catalog.subsystem y.catalog.name y.catalog.count
    presence (y.catalog.describe y.sample)
  rw [hdefine] at heffect
  have hbridge : b.define d₀ y.catalog presence y.sample =
      { b with registry := r', handles := Function.update b.handles d₀ h', status := .ok } := by
    simp only [Bridge.define, hdefine]
  refine ⟨r',h',hbridge,heffect.wellFormed,hothers,?_,hsame,hfree⟩
  rw [hbridge]
  refine ⟨dev,?_,hshown,fun _ => hset.symm ▸ hpresent⟩
  dsimp only
  rw [Function.update_self]
  exact hdev

theorem Bridge.MirrorsOthers.define {d₀ : ℕ} (h : b.MirrorsOthers n x d₀) (hd₀ : d₀ < n) {presence : ℕ}
    (hfits : (x d₀).Fits) (hpresent : (x d₀).present presence)
    (hok : (b.define d₀ (x d₀).catalog presence (x d₀).sample).status = .ok) :
    (b.define d₀ (x d₀).catalog presence (x d₀).sample).Mirrors n x Fresh Sure := by
  obtain ⟨dev,hdev⟩ := h.live
  obtain ⟨r',h',hbridge,hwellFormed,hothers,hshows,hsame,-⟩ := Bridge.define_shows hfits hpresent hok
  have hhandle : h' = b.handles d₀ := hsame (device_eq_some hdev).1
  subst hhandle
  rw [Function.update_eq_self] at hbridge
  rw [hbridge] at hshows ⊢
  refine ⟨hwellFormed h.wellFormed,h.handles,fun d hd => ?_⟩
  by_cases heq : d = d₀
  · subst heq
    exact hshows
  · obtain ⟨dev',hdev',hrest⟩ := h.shows d hd heq
    refine ⟨dev',?_,hrest⟩
    exact (hothers _ fun hk => heq (h.handles d hd d₀ hd₀ hk)).trans hdev'

/-- Redefining a device under a free name is accepted. -/
theorem Bridge.MirrorsOthers.define_ok {d₀ presence : ℕ} {y : Export} (h : b.MirrorsOthers n x d₀)
    (hk : y.catalog.Exportable) (hfits : y.Fits) (hle : presence ≤ presenceUnavailable)
    (hfree : nameTaken b.registry (b.handles d₀) y.catalog.subsystem y.catalog.name = false) :
    (b.define d₀ y.catalog presence y.sample).status = .ok := by
  obtain ⟨dev,hdev⟩ := h.live
  obtain ⟨r',hdefine⟩ := Cache.define_ok hk (fun i _ => hfits.2 i) hdev hfree hle
  simp only [Bridge.define, hdefine]

/-- A definition that is refused leaves only its status. -/
theorem Bridge.define_refused {d₀ presence : ℕ} {k : Catalog} {sample : ℕ → Sample}
    (hrefused : (b.define d₀ k presence sample).status ≠ .ok) :
    b.define d₀ k presence sample = { b with status := (b.define d₀ k presence sample).status } := by
  have hsame : (cacheDefine b.registry (b.handles d₀) k.subsystem k.name k.count presence (k.describe sample)).2 =
      (b.registry,b.handles d₀) := by
    have hnot : (cacheDefine b.registry (b.handles d₀) k.subsystem k.name k.count presence
      (k.describe sample)).1 ≠ .ok := hrefused
    unfold cacheDefine at hnot ⊢
    split_ifs at hnot ⊢
    · rfl
    · rfl
    · rfl
    · cases hslot : defineSlot b.registry (b.handles d₀) with
      | none => rfl
      | some slot =>
        rw [hslot] at hnot
        cases hstage : stage (k.describe sample) k.count 0 [] with
        | none => rfl
        | some entries =>
          rw [hstage] at hnot
          exact absurd rfl hnot
  have hregistry := congrArg Prod.fst hsame
  have hhandle := congrArg Prod.snd hsame
  dsimp only at hregistry hhandle
  simp only [Bridge.define, hregistry, hhandle, Function.update_eq_self]

/-! ## Attaching -/

/-- The loop of the attach functions over the devices from `d` on, up to one that fails. -/
def attachFrom (configure : Bridge → ℕ → Bridge) : (left d : ℕ) → Bridge → Bridge
  | 0, _, b => b
  | left + 1, d, b =>
    let b := configure b d
    if b.status ≠ .ok then b else attachFrom configure left (d + 1) b

/-- It has succeeded if the status is OK. -/
def attach (registry : CacheRegistry) (count : ℕ) (configure : Bridge → ℕ → Bridge) : Bridge :=
  attachFrom configure count 0 ⟨registry,fun _ => 0,.ok,0⟩

/-- The first `n` devices are exported, each behind a handle of its own. -/
structure Bridge.Attached (b : Bridge) (x : ℕ → Export) (n : ℕ) : Prop where
  mirrors : b.Mirrors n x Fresh Sure
  unused : ∀ d, n ≤ d → b.handles d = 0

/-- One more device is exported, in a slot that was free. -/
theorem Bridge.Attached.succ (h : b.Attached x n) {presence : ℕ} (hfits : (x n).Fits)
    (hpresent : (x n).present presence) (hok : (b.define n (x n).catalog presence (x n).sample).status = .ok) :
    (b.define n (x n).catalog presence (x n).sample).Attached x (n + 1) := by
  obtain ⟨r',k,hbridge,hwellFormed,hothers,hshows,-,hfree⟩ := Bridge.define_shows hfits hpresent hok
  have hnew := hfree (h.unused n (Nat.le_refl n))
  -- the older devices are live, so they are not behind the new handle
  have holder : ∀ d < n, b.handles d ≠ k := by
    intro d hd heq
    obtain ⟨dev,hdev,-⟩ := h.mirrors.shows d hd
    rw [heq, hnew] at hdev
    cases hdev
  rw [hbridge] at hshows ⊢
  refine ⟨⟨hwellFormed h.mirrors.wellFormed,?_,?_⟩,?_⟩
  · intro d hd d' hd' heq
    dsimp only at heq
    rcases Nat.lt_succ_iff_lt_or_eq.mp hd with hd | rfl
    · rcases Nat.lt_succ_iff_lt_or_eq.mp hd' with hd' | rfl
      · rw [Function.update_of_ne (Nat.ne_of_lt hd), Function.update_of_ne (Nat.ne_of_lt hd')] at heq
        exact h.mirrors.handles d hd d' hd' heq
      · rw [Function.update_of_ne (Nat.ne_of_lt hd), Function.update_self] at heq
        exact absurd heq (holder d hd)
    · rcases Nat.lt_succ_iff_lt_or_eq.mp hd' with hd' | rfl
      · rw [Function.update_of_ne (Nat.ne_of_lt hd'), Function.update_self] at heq
        exact absurd heq.symm (holder d' hd')
      · rfl
  · intro d hd
    rcases Nat.lt_succ_iff_lt_or_eq.mp hd with hd | rfl
    · obtain ⟨dev,hdev,hrest⟩ := h.mirrors.shows d hd
      refine ⟨dev,?_,hrest⟩
      dsimp only
      rw [Function.update_of_ne (Nat.ne_of_lt hd)]
      exact (hothers _ (holder d hd)).trans hdev
    · exact hshows
  · intro d hd
    dsimp only
    rw [Function.update_of_ne (by omega)]
    exact h.unused d (by omega)

/-- If it has succeeded, every device is shown. -/
theorem attach_mirrors {registry : CacheRegistry} (hregistry : registry.WellFormed) {configure : Bridge → ℕ → Bridge}
    {presence : ℕ → ℕ} (hconfigure : ∀ d < n, ∀ b : Bridge,
      configure b d = b.define d (x d).catalog (presence d) (x d).sample)
    (hfits : ∀ d < n, (x d).Fits) (hpresent : ∀ d < n, (x d).present (presence d))
    (hok : (attach registry n configure).status = .ok) : (attach registry n configure).Mirrors n x Fresh Sure := by
  have hloop : ∀ left d b, d + left = n → Bridge.Attached b x d → (attachFrom configure left d b).status = .ok →
      (attachFrom configure left d b).Attached x n := by
    intro left
    induction left with
    | zero =>
      intro d b hd h _
      rw [Nat.add_zero] at hd
      exact hd ▸ h
    | succ left ih =>
      intro d b hd h hstatus
      have hlt : d < n := by omega
      rw [attachFrom, hconfigure d hlt] at hstatus ⊢
      split at hstatus
      · exact absurd hstatus ‹_›
      · rename_i hdefined
        rw [if_neg hdefined]
        exact ih (d + 1) _ (by omega) (h.succ (hfits d hlt) (hpresent d hlt) (not_not.mp hdefined)) hstatus
  have hnone : Bridge.Attached ⟨registry,fun _ => 0,.ok,0⟩ x 0 :=
    ⟨⟨hregistry,fun d hd => absurd hd (Nat.not_lt_zero d),fun d hd => absurd hd (Nat.not_lt_zero d)⟩,fun _ _ => rfl⟩
  exact (hloop n 0 _ (Nat.zero_add n) hnone hok).mirrors

end

end Bvstk.Cache
