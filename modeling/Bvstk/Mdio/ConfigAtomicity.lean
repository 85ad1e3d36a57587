import Bvstk.Mdio.MirrorCoherence

/-! # What a new MDIO configuration leaves behind

A configuration that is refused changes nothing. One that is accepted forgets the PHY,
takes effect, forgets the PHY again and seeds the cache from its settings; the mirror may
fail in between, and then the configuration stays where it was or where it got to.
-/
namespace Bvstk.Mdio
open Config Events Cache CallLog Machine
variable {ε : Type}

/-! ## Failed publications -/

def MdioCall.failedPublish : MdioCall → Bool
  | .publish _ _ _ status => status != .ok
  | _ => false

/-- How many words the mirror has refused so far. -/
def failedPublishes (w : MdioWorld ε) : ℕ := w.calls.countP fun p => p.2.failedPublish

section
variable {w w' w'' : MdioWorld ε}

theorem failedPublishes_call (w : MdioWorld ε) (c : MdioCall) :
    failedPublishes (w.call c) = failedPublishes w + if c.failedPublish = true then 1 else 0 := by
  rw [failedPublishes, World.call, List.countP_append, List.countP_singleton]
  rfl

/-- The outcome of publishing words since the count was `before`: IO if one was refused. -/
structure Reports (before : ℕ) (status : Status) (w : MdioWorld ε) : Prop where
  outcome : status = .ok ∨ status = .io
  mono : before ≤ failedPublishes w
  failed : status ≠ .ok → before < failedPublishes w

/-! ## The steps of a configuration -/

/-- The cache holds exactly these settings, the last one where there are several for a
register, and nothing else. -/
def SeededWith (settings : List MdioSetting) (cache : UInt8 → MdioCacheEntry) : Prop :=
  ∀ r, match settings.reverse.find? (·.reg == r) with
    | none => cache r = MdioCacheEntry.zero
    | some v => (cache r).value = v.val ∧ (cache r).valid = true ∧ (cache r).seeded = true

/-- Everything the configuration of PHY `d` does not touch. -/
structure OtherPhysKept (d : ℕ) (s s' : MdioState) : Prop where
  cache : ∀ d' ≠ d, s'.cache d' = s.cache d'
  online : ∀ d' ≠ d, s'.online d' = s.online d'

theorem OtherPhysKept.trans {d : ℕ} {s s' s'' : MdioState} (h : OtherPhysKept d s s') (h' : OtherPhysKept d s' s'') :
    OtherPhysKept d s s'' :=
  ⟨fun d' hd => (h'.cache d' hd).trans (h.cache d' hd),fun d' hd => (h'.online d' hd).trans (h.online d' hd)⟩

variable (P : MdioPlatform ε) {before : ℕ}

theorem publish_failed (w : MdioWorld ε) (phy reg : UInt8) (value : UInt16) :
    failedPublishes (publish P w phy reg value).2 =
      failedPublishes w + if (publish P w phy reg value).1 ≠ .ok then 1 else 0 := by
  have hcount := failedPublishes_call { w with env := (P.publish w.env phy reg value).2 }
    (.publish phy reg value (P.publish w.env phy reg value).1)
  refine Eq.trans hcount ?_
  simp only [MdioCall.failedPublish, bne_iff_ne, ne_eq]
  rfl

theorem reports_publishOnes (phy : UInt8) (left r : ℕ) {result : Status} (h : Reports before result w) :
    (publishOnes P phy left r result w).2.state = w.state ∧
      Reports before (publishOnes P phy left r result w).1 (publishOnes P phy left r result w).2 := by
  induction left generalizing r result w with
  | zero => exact ⟨rfl,h⟩
  | succ left ih =>
    have hcount := publish_failed P w phy (UInt8.ofNat r) 0xFFFF
    have hstate : (publish P w phy (UInt8.ofNat r) 0xFFFF).2.state = w.state := rfl
    unfold publishOnes
    generalize publish P w phy (UInt8.ofNat r) 0xFFFF = out at hcount hstate ⊢
    obtain ⟨status,w₁⟩ := out
    dsimp only at hcount hstate ⊢
    have hmore : Reports before (if status ≠ .ok then .io else result) w₁ := by
      split at hcount
      · rename_i hfailed
        rw [if_pos hfailed]
        have hlt : before < failedPublishes w₁ := hcount ▸ Nat.lt_succ_of_le h.mono
        exact ⟨Or.inr rfl,Nat.le_of_lt hlt,fun _ => hlt⟩
      · rename_i hok
        rw [if_neg hok]
        exact ⟨h.outcome,hcount ▸ h.mono,fun hresult => hcount ▸ h.failed hresult⟩
    obtain ⟨hstate',hreports⟩ := ih (r + 1) hmore
    exact ⟨hstate'.trans hstate,hreports⟩

theorem failedPublishes_cacheChangedFrom (d left r : ℕ) (w : MdioWorld ε) :
    failedPublishes (cacheChangedFrom d left r w) = failedPublishes w := by
  induction left generalizing r w with
  | zero => rfl
  | succ left ih => exact (ih (r + 1) _).trans (failedPublishes_call w _)

theorem reports_invalidate (d : ℕ) (c : MdioPhyConfig) (h : before ≤ failedPublishes w) :
    (invalidate P w d c).2.state = w.state.forget d ∧
      Reports before (invalidate P w d c).1 (invalidate P w d c).2 := by
  have hstate := cacheChangedFrom_state d c.regCount.toNat 0 (w.modify (·.forget d))
  have hcount := failedPublishes_cacheChangedFrom d c.regCount.toNat 0 (w.modify (·.forget d))
  have hpresence := failedPublishes_call (cacheChangedFrom d c.regCount.toNat 0 (w.modify (·.forget d))) (.presence d 2)
  have hstart : Reports before .ok
      ((cacheChangedFrom d c.regCount.toNat 0 (w.modify (·.forget d))).call (.presence d 2)) := by
    refine ⟨Or.inl rfl,?_,fun hne => absurd rfl hne⟩
    rw [hpresence, hcount]
    exact h
  obtain ⟨hstate',hreports⟩ := reports_publishOnes P c.phyAddr 32 0 hstart
  exact ⟨hstate'.trans hstate,hreports⟩

/-- Seeding goes through the settings in order, up to the first that is refused. -/
theorem reports_seed (d : ℕ) (phy : UInt8) (settings done : List MdioSetting) (hmono : before ≤ failedPublishes w)
    (hseeded : SeededWith done (w.state.cache d)) :
    ∃ n, SeededWith (done ++ settings.take n) ((seed P d phy settings w).2.state.cache d) ∧
      ((seed P d phy settings w).1 = .ok → n = settings.length) ∧
      Reports before (seed P d phy settings w).1 (seed P d phy settings w).2 ∧
      OtherPhysKept d w.state (seed P d phy settings w).2.state ∧
      (seed P d phy settings w).2.state.online d = w.state.online d ∧
      (seed P d phy settings w).2.state.devices = w.state.devices := by
  induction settings generalizing done w with
  | nil =>
    refine ⟨0,?_,fun _ => rfl,?_,⟨fun _ _ => rfl,fun _ _ => rfl⟩,rfl,rfl⟩
    · rw [List.take_nil, List.append_nil]
      exact hseeded
    · exact ⟨Or.inl rfl,hmono,fun hne => absurd rfl hne⟩
  | cons v settings ih =>
    have hcount := publish_failed P w phy v.reg v.val
    have hstate : (publish P w phy v.reg v.val).2.state = w.state := rfl
    unfold seed
    generalize publish P w phy v.reg v.val = out at hcount hstate ⊢
    obtain ⟨status,w₁⟩ := out
    dsimp only at hcount hstate ⊢
    split
    · rename_i hfailed
      rw [if_pos hfailed] at hcount
      have hlt : before < failedPublishes w₁ := hcount ▸ Nat.lt_succ_of_le hmono
      refine ⟨0,?_,fun hok => (by cases hok),⟨Or.inr rfl,Nat.le_of_lt hlt,fun _ => hlt⟩,?_,?_,?_⟩
      · simpa [hstate] using hseeded
      · exact ⟨fun _ _ => by rw [hstate],fun _ _ => by rw [hstate]⟩
      · rw [hstate]
      · rw [hstate]
    · rename_i hok
      rw [if_neg hok] at hcount
      let w₂ := World.modify { w₁ with env := (P.nowMs w₁.env).2 }
        (·.setEntry d v.reg ⟨v.val,true,true,(P.nowMs w₁.env).1⟩)
      have hentry : SeededWith (done ++ [v]) (w₂.state.cache d) := by
        intro r
        have hcache : w₂.state.cache d r =
            if r = v.reg then ⟨v.val,true,true,(P.nowMs w₁.env).1⟩ else w.state.cache d r := by
          simp only [w₂, modify_state, MdioState.setEntry, Function.update_self, Function.update_apply, hstate]
        rw [hcache, List.reverse_append, List.reverse_singleton, List.singleton_append, List.find?_cons]
        by_cases hr : v.reg = r
        · subst hr
          simp
        · rw [if_neg (Ne.symm hr), beq_eq_false_iff_ne.mpr hr]
          exact hseeded r
      have hreport : failedPublishes (cacheChanged w₂ d v.reg) = failedPublishes w :=
        (failedPublishes_call w₂ _).trans hcount
      obtain ⟨n,hrest,hall,hreports,hothers,honline,hdevices⟩ :=
        ih (w := cacheChanged w₂ d v.reg) (done ++ [v]) (hreport ▸ hmono) hentry
      refine ⟨n + 1,?_,fun hdone => by rw [hall hdone, List.length_cons],hreports,?_,?_,?_⟩
      · rw [List.take_succ_cons]
        simpa using hrest
      · refine OtherPhysKept.trans ⟨fun d' hd => ?_,fun _ _ => ?_⟩ hothers
        · change (Function.update w₁.state.cache d _) d' = _
          rw [Function.update_of_ne hd, hstate]
        · change w₁.state.online _ = _
          rw [hstate]
      · refine honline.trans ?_
        change w₁.state.online d = _
        rw [hstate]
      · refine hdevices.trans ?_
        change w₁.state.devices = _
        rw [hstate]

/-! ## The outcome of a configuration -/

/-- What a call for PHY `d` can come to. It is refused; or a word was refused by the mirror
and the PHY is left with its old configuration and nothing cached, or with the new one and
the first of its settings; or the new configuration is in force. -/
inductive ConfigOutcome (w : MdioWorld ε) (d : ℕ) (c : MdioPhyConfig) : Status → MdioWorld ε → Prop where
  | refused {status : Status} {w' : MdioWorld ε} (herror : status ≠ .ok) (hstate : w'.state = w.state)
      (hcalls : w'.calls = w.calls) : ConfigOutcome w d c status w'
  | forgotten {old : MdioPhyConfig} {w' : MdioWorld ε} (hknown : w.state.devices.items[d]? = some old)
      (hchanged : busChanged old c = true) (hfailed : failedPublishes w < failedPublishes w')
      (hdevices : w'.state.devices = w.state.devices) (hcache : SeededWith [] (w'.state.cache d))
      (hoffline : w'.state.online d = false) (hothers : OtherPhysKept d w.state w'.state) : ConfigOutcome w d c .io w'
  | interrupted {old : MdioPhyConfig} {w' : MdioWorld ε} (n : ℕ) (hknown : w.state.devices.items[d]? = some old)
      (hchanged : busChanged old c = true) (hfailed : failedPublishes w < failedPublishes w')
      (hdevices : w'.state.devices.items = w.state.devices.items.set d c)
      (hcache : SeededWith (c.settings.take n) (w'.state.cache d)) (hoffline : w'.state.online d = false)
      (hothers : OtherPhysKept d w.state w'.state) : ConfigOutcome w d c .io w'
  | applied {old : MdioPhyConfig} {w' : MdioWorld ε} (hknown : w.state.devices.items[d]? = some old)
      (hdevices : w'.state.devices.items = w.state.devices.items.set d c)
      (hkept : busChanged old c = false → w'.state.cache d = w.state.cache d ∧ w'.state.online d = w.state.online d)
      (hseeded : busChanged old c = true → SeededWith c.settings (w'.state.cache d) ∧ w'.state.online d = false)
      (hothers : OtherPhysKept d w.state w'.state) : ConfigOutcome w d c .ok w'

theorem seededWith_forget (s : MdioState) (d : ℕ) : SeededWith [] ((s.forget d).cache d) := by
  intro r
  simp [MdioState.forget]

theorem otherPhysKept_forget (s : MdioState) (d : ℕ) : OtherPhysKept d s (s.forget d) :=
  ⟨fun _ hd => Function.update_of_ne hd _ _,fun _ hd => Function.update_of_ne hd _ _⟩

theorem configOutcome_apply {d : ℕ} {old c : MdioPhyConfig} (hknown : w.state.devices.items[d]? = some old)
    {devices : MdioPhys} (hdevices : devices.items = w.state.devices.items.set d c) :
    ConfigOutcome w d c (applyConfig P w d old c devices).1 (applyConfig P w d old c devices).2 := by
  cases hchanged : busChanged old c with
  | false =>
    have hout : applyConfig P w d old c devices = (.ok,((w.modify fun s => { s with devices := devices }).call
        (.configChanged d c)).modify (·.schedule d 0 0)) := by
      simp only [applyConfig, startConfig, hchanged, Bool.false_eq_true, if_false, ne_eq, not_true]
    rw [hout]
    exact .applied hknown hdevices (fun _ => ⟨rfl,rfl⟩) (fun h => absurd (hchanged.symm.trans h) (by decide))
      ⟨fun _ _ => rfl,fun _ _ => rfl⟩
  | true =>
    obtain ⟨hstate,hreports⟩ := reports_invalidate P d old (Nat.le_refl (failedPublishes w))
    unfold applyConfig
    simp only [hchanged, if_true]
    generalize invalidate P w d old = out at hstate hreports ⊢
    obtain ⟨status,w₁⟩ := out
    dsimp only at hstate hreports ⊢
    split
    · -- the old PHY could not be forgotten: its configuration stays
      rename_i hfailed
      rw [hreports.outcome.resolve_left hfailed]
      have hsame : w₁.state.devices = w.state.devices := by
        rw [hstate]
        rfl
      have hoffline : w₁.state.online d = false := by
        rw [hstate]
        simp [MdioState.forget]
      exact .forgotten hknown hchanged (hreports.failed hfailed) hsame (hstate ▸ seededWith_forget w.state d)
        hoffline (hstate ▸ otherPhysKept_forget w.state d)
    · unfold startConfig
      simp only [if_true]
      let w₂ := ((w₁.modify fun s => { s with devices := devices }).call (.configChanged d c)).modify (·.schedule d 0 0)
      have hcount : failedPublishes w₂ = failedPublishes w₁ := failedPublishes_call _ _
      have hothers₁ : OtherPhysKept d w.state w₂.state := by
        have hforget := otherPhysKept_forget w.state d
        rw [← hstate] at hforget
        exact ⟨hforget.cache,hforget.online⟩
      obtain ⟨hstate',hreports'⟩ := reports_invalidate P d c (w := w₂) (hcount ▸ hreports.mono)
      change ConfigOutcome w d c
        (if (invalidate P w₂ d c).1 ≠ .ok then ((invalidate P w₂ d c).1,(invalidate P w₂ d c).2)
          else seed P d c.phyAddr c.settings (invalidate P w₂ d c).2).1
        (if (invalidate P w₂ d c).1 ≠ .ok then ((invalidate P w₂ d c).1,(invalidate P w₂ d c).2)
          else seed P d c.phyAddr c.settings (invalidate P w₂ d c).2).2
      generalize invalidate P w₂ d c = out at hstate' hreports' ⊢
      obtain ⟨status',w₃⟩ := out
      dsimp only at hstate' hreports' ⊢
      have hitems : w₃.state.devices.items = w.state.devices.items.set d c := by
        rw [hstate']
        exact hdevices
      have hoffline : w₃.state.online d = false := by
        rw [hstate']
        simp [MdioState.forget]
      have hothers : OtherPhysKept d w.state w₃.state := by
        rw [hstate']
        exact hothers₁.trans (otherPhysKept_forget w₂.state d)
      have hempty : SeededWith [] (w₃.state.cache d) := by
        rw [hstate']
        exact seededWith_forget w₂.state d
      split
      · rename_i hfailed
        dsimp only
        rw [hreports'.outcome.resolve_left hfailed]
        exact .interrupted 0 hknown hchanged (hreports'.failed hfailed) hitems hempty hoffline hothers
      · obtain ⟨n,hseeded,hall,hreports'',hothers',honline,hsame⟩ :=
          reports_seed P d c.phyAddr c.settings [] hreports'.mono hempty
        rw [List.nil_append] at hseeded
        generalize seed P d c.phyAddr c.settings w₃ = out at hseeded hall hreports'' hothers' honline hsame ⊢
        obtain ⟨status'',w₄⟩ := out
        dsimp only at hseeded hall hreports'' hothers' honline hsame ⊢
        have hitems' : w₄.state.devices.items = w.state.devices.items.set d c := by
          rw [hsame]
          exact hitems
        by_cases hok : status'' = .ok
        · subst hok
          rw [hall rfl, List.take_length] at hseeded
          exact .applied hknown hitems' (fun h => absurd (hchanged.symm.trans h) (by decide))
            (fun _ => ⟨hseeded,honline.trans hoffline⟩) (hothers.trans hothers')
        · rw [hreports''.outcome.resolve_left hok]
          exact .interrupted n hknown hchanged (hreports''.failed hok) hitems' hseeded (honline.trans hoffline)
            (hothers.trans hothers')

/-- The lock is taken first, which only the environment sees. -/
theorem ConfigOutcome.of_env {env : ε} {d : ℕ} {c : MdioPhyConfig} {status : Status}
    (h : ConfigOutcome { w with env := env } d c status w') : ConfigOutcome w d c status w' := by
  cases h with
  | refused herror hstate hcalls => exact .refused herror hstate hcalls
  | forgotten hknown hchanged hfailed hdevices hcache hoffline hothers =>
    exact .forgotten hknown hchanged hfailed hdevices hcache hoffline hothers
  | interrupted n hknown hchanged hfailed hdevices hcache hoffline hothers =>
    exact .interrupted n hknown hchanged hfailed hdevices hcache hoffline hothers
  | applied hknown hdevices hkept hseeded hothers => exact .applied hknown hdevices hkept hseeded hothers

theorem configOutcome_setConfig (w : MdioWorld ε) (d : ℕ) (c : MdioPhyConfig) :
    ConfigOutcome w d c (serviceSetConfig P w d c).1 (serviceSetConfig P w d c).2 := by
  unfold serviceSetConfig
  split
  · rename_i hvalid
    unfold locked
    dsimp only
    split
    · rename_i hlock
      exact .refused hlock rfl rfl
    · split
      · rename_i hfree
        split
        · exact .refused (by simp) rfl rfl
        · rename_i hknown
          split
          · exact .refused (by simp) rfl rfl
          · have hset : (w.state.devices.set d c (mdioConfigValidate_eq_ok.mp hvalid) hfree).items =
                w.state.devices.items.set d c := rfl
            exact ConfigOutcome.of_env (configOutcome_apply P (w := { w with env := (P.lock w.env).2 }) hknown hset)
      · exact .refused (by simp) rfl rfl
  · rename_i hinvalid
    exact .refused hinvalid rfl rfl

end

/-- The mirror fails while the PHY is forgotten: the call reports IO and the cached value is
gone. And a configuration that is in force already is accepted without seeding it again. -/
theorem setConfig_not_atomic :
    (let w := final (mdioStep countingPlatform) (onePhyState.start 1) [.read 0 0 .internal 10]
     let out := serviceSetConfig countingPlatform w 0 (plainPhy 5 [])
     out.1 = .io ∧ (w.state.cache 0 0).valid = true ∧ (out.2.state.cache 0 0).valid = false) ∧
    (let c := plainPhy 4 [⟨0,9⟩]
     let w := final (mdioStep countingPlatform) (onePhyState.start 100) [.setConfig 0 c,.read 0 0 .internal 10]
     let out := serviceSetConfig countingPlatform w 0 c
     out.1 = .ok ∧ (out.2.state.cache 0 0).seeded = false) := by
  decide

/-- In every reachable state a call comes to one of the outcomes above. An error without a
refused word changes neither the service nor the registry, and whatever happens the registry
shows the service afterwards. -/
theorem setConfig_outcomes (P : MdioPlatform ε) (requests : List RegistryRequest) (now : ℕ → UInt64)
    (s : MdioState) (env : ε) (ops : List MdioOp) (d : ℕ) (c : MdioPhyConfig)
    (hattached : (attachMdio (final registryStep cacheHistoryInit requests).registry s).status = .ok) :
    let b := attachMdio (final registryStep cacheHistoryInit requests).registry s
    let w := final (mdioStep P) (s.start env) ops
    let out := serviceSetConfig P w d c
    ConfigOutcome w d c out.1 out.2 ∧
    (out.1 ≠ .ok → failedPublishes out.2 = failedPublishes w →
      out.2.state = w.state ∧ bridgeAt now b out.2 = bridgeAt now b w) ∧
    Mirrors Fresh Sure out.2.state (bridgeAt now b out.2) := by
  intro b w out
  have houtcome : ConfigOutcome w d c out.1 out.2 := configOutcome_setConfig P w d c
  refine ⟨houtcome,?_,?_⟩
  · intro herror hpublished
    generalize out.1 = status at houtcome herror
    generalize out.2 = w' at houtcome hpublished ⊢
    cases houtcome with
    | refused _ hstate hcalls => exact ⟨hstate,by rw [bridgeAt, bridgeAt, hcalls]⟩
    | forgotten _ _ hfailed => exact absurd hpublished (Nat.ne_of_gt hfailed)
    | interrupted _ _ _ hfailed => exact absurd hpublished (Nat.ne_of_gt hfailed)
    | applied => exact absurd rfl herror
  · have hregistry : (final registryStep cacheHistoryInit requests).Kept :=
      final_invariant (P := CacheHistory.Kept) kept_step kept_init requests
    have hstart : Coherent now b Fresh Sure (s.start env) := attachMdio_mirrors hregistry.wellFormed hattached
    exact coherent_setConfig P d c (coherent_run P ops hstart)

theorem setConfig_outcomes_one :
    let b := attachMdio (final registryStep cacheHistoryInit []).registry onePhyState
    let out := serviceSetConfig countingPlatform (onePhyState.start 0) 0 (plainPhy 5 [])
    out.1 = .io ∧ ConfigOutcome (onePhyState.start 0) 0 (plainPhy 5 []) out.1 out.2 ∧
      Mirrors Fresh Sure out.2.state (bridgeAt (fun _ => 0) b out.2) := by
  intro b out
  have hio : out.1 = .io := by decide
  obtain ⟨houtcome,-,hmirrors⟩ := setConfig_outcomes countingPlatform [] (fun _ => 0) onePhyState 0 [] 0 (plainPhy 5 [])
    (by decide)
  exact ⟨hio,houtcome,hmirrors⟩

end Bvstk.Mdio
