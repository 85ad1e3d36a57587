import Bvstk.Dcp2.PolicyFaithful

/-! # Policy requests on both buses

The I2C and the MDIO service are such that their requests are faithful.
-/
namespace Bvstk.Dcp2
open Config I2c Mdio Surfaces Wire CallLog

/-- The same state, and nothing called. -/
def Untouched {σ ε κ : Type} (w w' : World σ ε κ) : Prop := w'.state = w.state ∧ w'.calls = w.calls

/-! ## I2C -/

section
variable {ε : Type}

def i2cView (w : I2cWorld ε) (deviceId : ℕ) : Option (PolicyView I2cRule) :=
  (masterServiceGetPolicy w.state deviceId).map fun p => ⟨p.mode.code,p.whitelist,p.blacklist⟩

/-- The call of the I2C service for an edit. -/
def i2cPerform (w : I2cWorld ε) (deviceId : ℕ) : PolicyEdit I2cRule → Status × I2cWorld ε
  | .set mode => masterServiceSetPolicy w deviceId mode.code
  | .add .whitelist r => masterServiceRuleAllow w deviceId r.reg r.val
  | .add .blacklist r => masterServiceRuleDeny w deviceId r.reg r.val
  | .delete list r => masterServiceRuleRemove w deviceId list.code r.reg r.val
  | .clear list => masterServiceRuleClearList w deviceId list.code

def readI2cRule (bytes : Wire.Bytes) : Option (I2cRule × Wire.Bytes) := do
  let (reg,bytes) ← readByte bytes
  let (val,bytes) ← readByte bytes
  pure (⟨reg,val⟩,bytes)

/-- An edit of an entry that fails leaves the entry. -/
def FailsClean (f : I2cPolicyEntry → Status × I2cPolicyEntry) : Prop := ∀ entry, (f entry).1 ≠ .ok → (f entry).2 = entry

theorem set_getElem?_self {α : Type} {xs : List α} {i : ℕ} {x : α} (h : xs[i]? = some x) : xs.set i x = xs := by
  obtain ⟨hi,rfl⟩ := List.getElem?_eq_some_iff.mp h
  exact List.set_getElem_self hi

theorem edit_untouched {f : I2cPolicyEntry → Status × I2cPolicyEntry} (hf : FailsClean f) {p : I2cPolicy} {deviceId : ℕ}
    (h : (p.edit deviceId f).1 ≠ .ok) : (p.edit deviceId f).2 = p := by
  unfold I2cPolicy.edit at h ⊢
  split
  · rfl
  · rename_i entry hentry
    rw [hentry] at h
    dsimp only
    rw [hf entry h, set_getElem?_self hentry]

theorem setPolicy_untouched {w : I2cWorld ε} {deviceId : ℕ} {f : I2cPolicyEntry → Status × I2cPolicyEntry} (hf : FailsClean f)
    (h : (setPolicy w (w.state.policy.edit deviceId f) (edit_length _ _ _)).1 ≠ .ok) :
    Untouched w (setPolicy w (w.state.policy.edit deviceId f) (edit_length _ _ _)).2 := by
  have hsame := edit_untouched hf h
  refine ⟨?_,rfl⟩
  simp only [setPolicy, hsame]

theorem addRule_failsClean {rules : List I2cRule} {reg value : UInt8} (h : (I2c.addRule rules reg value).1 ≠ .ok) :
    (I2c.addRule rules reg value).2 = rules := by
  unfold I2c.addRule at h ⊢
  split
  · rfl
  rename_i hnew
  rw [if_neg hnew] at h
  split
  · rfl
  · rename_i hroom
    rw [if_neg hroom] at h
    exact absurd rfl h

section
variable {w : I2cWorld ε} {deviceId : ℕ} {reg value : UInt8}

theorem setMode_failed (mode : ℕ) (h : (masterServiceSetPolicy w deviceId mode).1 ≠ .ok) :
    Untouched w (masterServiceSetPolicy w deviceId mode).2 := by
  unfold masterServiceSetPolicy at h ⊢
  split
  · exact ⟨rfl,rfl⟩
  rename_i hknown
  rw [if_neg hknown] at h
  refine setPolicy_untouched (fun entry hbad => ?_) h
  split
  · rfl
  · rename_i hmode
    rw [hmode] at hbad
    exact absurd rfl hbad

theorem ruleAllow_failed (h : (masterServiceRuleAllow w deviceId reg value).1 ≠ .ok) :
    Untouched w (masterServiceRuleAllow w deviceId reg value).2 := by
  unfold masterServiceRuleAllow at h ⊢
  split
  · exact ⟨rfl,rfl⟩
  rename_i device hdevice
  rw [hdevice] at h
  refine setPolicy_untouched (fun entry hbad => ?_) h
  split
  · rfl
  · rename_i hvalid
    rw [if_neg hvalid] at hbad
    rw [addRule_failsClean hbad]

theorem ruleDeny_failed (h : (masterServiceRuleDeny w deviceId reg value).1 ≠ .ok) :
    Untouched w (masterServiceRuleDeny w deviceId reg value).2 := by
  unfold masterServiceRuleDeny at h ⊢
  split
  · exact ⟨rfl,rfl⟩
  rename_i device hdevice
  rw [hdevice] at h
  refine setPolicy_untouched (fun entry hbad => ?_) h
  split
  · rfl
  · rename_i hvalid
    rw [if_neg hvalid] at hbad
    rw [addRule_failsClean hbad]

theorem ruleRemove_failed {list : ℕ} (h : (masterServiceRuleRemove w deviceId list reg value).1 ≠ .ok) :
    Untouched w (masterServiceRuleRemove w deviceId list reg value).2 := by
  unfold masterServiceRuleRemove at h ⊢
  split
  · exact ⟨rfl,rfl⟩
  rename_i device hdevice
  rw [hdevice] at h
  dsimp only at h
  split
  · exact ⟨rfl,rfl⟩
  rename_i hlist
  rw [if_neg hlist] at h
  split
  · exact ⟨rfl,rfl⟩
  rename_i hrange
  rw [if_neg hrange] at h
  refine setPolicy_untouched (fun entry hbad => ?_) h
  revert hbad
  split
  · exact fun _ => rfl
  · split
    · exact fun _ => rfl
    · exact fun hbad => absurd rfl hbad
  · split
    · exact fun _ => rfl
    · exact fun hbad => absurd rfl hbad

theorem clearList_failed {list : ℕ} (h : (masterServiceRuleClearList w deviceId list).1 ≠ .ok) :
    Untouched w (masterServiceRuleClearList w deviceId list).2 := by
  unfold masterServiceRuleClearList at h ⊢
  split
  · exact ⟨rfl,rfl⟩
  rename_i hknown
  rw [if_neg hknown] at h
  refine setPolicy_untouched (fun entry hbad => ?_) h
  revert hbad
  split
  · exact fun _ => rfl
  · exact fun hbad => absurd rfl hbad
  · exact fun hbad => absurd rfl hbad

end

theorem i2cPerform_failed (w : I2cWorld ε) (deviceId : ℕ) (e : PolicyEdit I2cRule) (h : (i2cPerform w deviceId e).1 ≠ .ok) :
    Untouched w (i2cPerform w deviceId e).2 := by
  match e with
  | .set mode => exact setMode_failed mode.code h
  | .add .whitelist r => exact ruleAllow_failed h
  | .add .blacklist r => exact ruleDeny_failed h
  | .delete list r => exact ruleRemove_failed h
  | .clear list => exact clearList_failed h

theorem code_lt (mode : PolicyMode) : mode.code < 256 := by
  cases mode with
  | whitelist => decide
  | blacklist => decide

theorem i2cBus_lawful : LawfulBus (i2cBus (ε := ε)) i2cView i2cPerform readI2cRule Untouched where
  bytes_length _ := rfl
  rule_bytes _ _ _ := rfl
  bytes_rule address list bytes hlength := by
    match bytes, hlength with
    | [reg,val], _ => rfl
  reads _ _ := rfl
  counts := by
    change i2cRulesMax < 256^2
    decide
  fits := by
    change 5 + (i2cRulesMax + i2cRulesMax) * 2 ≤ maxPayload - 6
    decide
  trans h h' := ⟨h'.1.trans h.1,h'.2.trans h.2⟩
  refl _ := ⟨rfl,rfl⟩
  view_congr deviceId h := by rw [i2cView, h.1, i2cView]
  find _ _ := ⟨rfl,rfl⟩
  getPolicy _ _ := ⟨rfl,rfl⟩
  getPolicy_view w deviceId p hget := by
    unfold i2cBus at hget
    unfold i2cView
    dsimp only at hget
    split at hget
    · cases hget
    · rename_i entry hentry
      rw [hentry, ← Except.ok.inj hget]
      exact ⟨rfl,code_lt entry.mode⟩
  getPolicy_error w deviceId hget := by
    unfold i2cBus at hget
    dsimp only at hget
    split at hget
    · cases hget
    · cases hget
  set _ _ _ := rfl
  clear _ _ _ := rfl
  delete _ _ _ _ := rfl
  add w deviceId list r := by
    cases list with
    | whitelist => rfl
    | blacklist => rfl
  failed := i2cPerform_failed

theorem snapshot_length (p : I2cPolicyEntry) : (policySnapshot p).length = 5 + (p.whitelist.length + p.blacklist.length) * 2 :=
  i2cBus_lawful.answer_length (B := i2cBus (ε := Unit)) ⟨p.mode.code,p.whitelist,p.blacklist⟩

/-- The call is the one that the surfaces make. -/
theorem editPolicy_call (opcode : ℕ) (address : UInt8) (rest : List UInt8) (w : I2cWorld ε) (deviceId : ℕ) :
    editPolicy i2cBus opcode (address :: rest) w deviceId =
      (policyCall opcode (rest.headD 0) (rest.drop 1)).run w deviceId := by
  have hreg : (address :: rest).getD 2 0 = ((rest.drop 1)[0]?).getD 0 := by simp
  have hval : (address :: rest).getD 3 0 = ((rest.drop 1)[1]?).getD 0 := by simp
  have hlist : (address :: rest).getD 1 0 = rest.headD 0 := by
    cases rest with
    | nil => rfl
    | cons list rest => rfl
  unfold editPolicy policyCall
  simp only [i2cBus, hreg, hval, hlist]
  split
  · rfl
  split
  · rfl
  split
  · rfl
  split
  · rename_i hzero
    rw [if_pos (UInt8.toNat_inj.mp hzero)]
    rfl
  · rename_i hone
    rw [if_neg fun h => hone (by rw [h]; rfl)]
    rfl

theorem answerPolicy_surfaces (w : I2cWorld ε) (deviceId : ℕ) : answerPolicy i2cBus (maxPayload - 6) w deviceId =
    match masterServiceGetPolicy w.state deviceId with
    | none => ((policyStatus .notFound,[]),w)
    | some p =>
      if i2cRulesMax < p.whitelist.length ∨ i2cRulesMax < p.blacklist.length ∨
          maxPayload - 6 < (policySnapshot p).length then ((.range,[]),w)
      else ((.ok,policySnapshot p),w) := by
  unfold answerPolicy
  cases hpolicy : masterServiceGetPolicy w.state deviceId with
  | none =>
    have hget : i2cBus.getPolicy w deviceId = (.error .notFound,w) := by simp [i2cBus, hpolicy]
    rw [hget]
  | some p =>
    have hget : i2cBus.getPolicy w deviceId = (.ok ⟨p.mode.code,p.whitelist,p.blacklist⟩,w) := by simp [i2cBus, hpolicy]
    rw [hget]
    dsimp only
    rw [snapshot_length]
    change (if i2cRulesMax < _ ∨ i2cRulesMax < _ then _
      else if maxPayload - 6 < 5 + _ * 2 ∨ maxPayload - 6 < 5 + _ * 2 then _ else _) = _
    split
    · rename_i hlong
      rw [if_pos (hlong.imp_right Or.inl)]
    · rename_i hshort
      split
      · rename_i hlong
        rw [if_pos (Or.inr (Or.inr (or_self_iff.mp hlong)))]
      · rename_i hroom
        rw [if_neg fun h => h.elim (fun h => hshort (Or.inl h)) fun h => h.elim (fun h => hshort (Or.inr h))
          fun h => hroom (Or.inl h)]
        rfl

/-- The handler of the control surfaces is this one, with room for every answer. -/
theorem processPolicy_surfaces (w : I2cWorld ε) (opcode : ℕ) (body : List UInt8) :
    processPolicy i2cBus opcode body (maxPayload - 6) (some w) =
      ((Surfaces.processPolicy w opcode body).1,some (Surfaces.processPolicy w opcode body).2) := by
  unfold processPolicy Surfaces.processPolicy
  have hsize : (i2cBus (ε := ε)).bodySize opcode = policyBodySize opcode := rfl
  rw [hsize]
  split
  · rfl
  split
  · rfl
  rename_i hlength
  cases body with
  | nil =>
    refine absurd hlength (not_not.mpr ?_)
    rw [← hsize, PolicyBus.bodySize]
    split
    · exact Nat.zero_ne_one
    split
    · exact Nat.zero_ne_add_one 3
    · exact Nat.zero_ne_add_one 1
  | cons address rest =>
    have hlist : (address :: rest).getD 1 0 = rest.headD 0 := by
      cases rest with
      | nil => rfl
      | cons list rest => rfl
    rw [hlist]
    dsimp only
    split
    · rfl
    change (if 127 < address then _ else _) = _
    split
    · rfl
    cases hdevice : masterServiceFindByAddr w.state address with
    | none =>
      have hfind : i2cBus.findDevice w ((address :: rest).getD 0 0) = (.error .notFound,w) := by
        simp [i2cBus, hdevice]
      rw [hfind]
    | some deviceId =>
      have hfind : i2cBus.findDevice w ((address :: rest).getD 0 0) = (.ok deviceId,w) := by
        simp [i2cBus, hdevice]
      rw [hfind]
      dsimp only
      rw [editPolicy_call]
      split
      · have hanswer := answerPolicy_surfaces (ε := ε) w deviceId
        exact congrArg (fun r : (Status × List UInt8) × I2cWorld ε => (r.1,some r.2)) hanswer
      · rfl

end

/-! ## MDIO -/

section
variable {ε : Type} {P : MdioPlatform ε}

def mdioView (w : MdioWorld ε) (deviceId : ℕ) : Option (PolicyView MdioRule) :=
  w.state.devices.items[deviceId]?.map fun c => ⟨c.policy,c.whitelist,c.blacklist⟩

/-- The call of the MDIO service for an edit. -/
def mdioPerform (P : MdioPlatform ε) (w : MdioWorld ε) (deviceId : ℕ) : PolicyEdit MdioRule → Status × MdioWorld ε
  | .set mode => serviceSetPolicy P w deviceId mode.code
  | .add list r => serviceRuleAdd P w deviceId list.code r.reg r.val r.mask
  | .delete list r => serviceRuleRemove P w deviceId list.code r.reg r.val r.mask
  | .clear list => serviceRuleClearList P w deviceId list.code

def readMdioRule (bytes : Wire.Bytes) : Option (MdioRule × Wire.Bytes) := do
  let (reg,bytes) ← readByte bytes
  let (val,bytes) ← readNum 2 bytes
  let (mask,bytes) ← readNum 2 bytes
  pure (⟨reg,UInt16.ofNat val,UInt16.ofNat mask⟩,bytes)

/-- What is done under the lock leaves the state if it says so; the lock does. -/
theorem locked_untouched {α : Type} {refuse : Status → α} {f : MdioWorld ε → α × MdioWorld ε} {w : MdioWorld ε} (Bad : α → Prop)
    (hf : ∀ w, Bad (f w).1 → Untouched w (f w).2) (h : Bad (locked P w refuse f).1) : Untouched w (locked P w refuse f).2 := by
  unfold locked at h ⊢
  dsimp only at h ⊢
  split
  · exact ⟨rfl,rfl⟩
  · rename_i hlocked
    rw [if_neg hlocked] at h
    exact hf { w with env := (P.lock w.env).2 } h

theorem phys_set_self {ps : MdioPhys} {d : ℕ} {c : MdioPhyConfig} {hvalid : c.Valid} {hfree : ps.Free d c.phyAddr}
    (h : ps.items.set d c = ps.items) : ps.set d c hvalid hfree = ps := by
  cases ps with
  | mk items fits valid distinct =>
    unfold MdioPhys.set
    simp only [MdioPhys.mk.injEq]
    exact h

/-- An edit that fails leaves the configuration. -/
theorem editPhy_untouched {w : MdioWorld ε} {d : ℕ} {edit : MdioEdit} (hedit : ∀ c, (edit.apply c).1 ≠ .ok → (edit.apply c).2 = c)
    (h : (editPhy w d edit).1 ≠ .ok) : Untouched w (editPhy w d edit).2 := by
  unfold editPhy at h ⊢
  split
  · exact ⟨rfl,rfl⟩
  · rename_i c hc
    have hfails : (edit.apply c).1 ≠ .ok := by
      intro hok
      apply h
      split
      · rename_i hnone
        rw [hnone] at hc
        cases hc
      · rename_i c' hc'
        obtain rfl := Option.some.inj (hc'.symm.trans hc)
        assumption
    refine ⟨?_,rfl⟩
    dsimp only
    rw [phys_set_self]
    rw [hedit c hfails]
    exact set_getElem?_self hc

theorem editList_untouched {w : MdioWorld ε} {d list : ℕ} {edit : PolicyMode → MdioEdit}
    (hedit : ∀ list c, ((edit list).apply c).1 ≠ .ok → ((edit list).apply c).2 = c) (h : (editList w d list edit).1 ≠ .ok) :
    Untouched w (editList w d list edit).2 := by
  unfold editList at h ⊢
  split
  · exact ⟨rfl,rfl⟩
  rename_i hknown
  rw [if_neg hknown] at h
  revert h
  split
  · exact fun _ => ⟨rfl,rfl⟩
  · exact fun h => editPhy_untouched (hedit _) h

theorem mdioPerform_failed (w : MdioWorld ε) (deviceId : ℕ) (e : PolicyEdit MdioRule) (h : (mdioPerform P w deviceId e).1 ≠ .ok) :
    Untouched w (mdioPerform P w deviceId e).2 := by
  match e with
  | .set mode =>
    refine locked_untouched (fun status => status ≠ .ok) (fun w hbad => ?_) h
    rw [ofCode_code] at hbad ⊢
    exact editPhy_untouched (fun c hbad => absurd rfl hbad) hbad
  | .add list r =>
    refine locked_untouched (fun status => status ≠ .ok) (fun w hbad => editList_untouched (fun list c hbad => ?_) hbad) h
    revert hbad
    change (Mdio.addRule c list r.reg r.val r.mask).1 ≠ .ok → (Mdio.addRule c list r.reg r.val r.mask).2 = c
    unfold Mdio.addRule
    split
    · exact fun _ => rfl
    split
    · exact fun _ => rfl
    split
    · exact fun _ => rfl
    · exact fun hbad => absurd rfl hbad
  | .delete list r =>
    refine locked_untouched (fun status => status ≠ .ok) (fun w hbad => editList_untouched (fun list c hbad => ?_) hbad) h
    revert hbad
    change (Mdio.removeRule c list r.reg r.val r.mask).1 ≠ .ok → (Mdio.removeRule c list r.reg r.val r.mask).2 = c
    unfold Mdio.removeRule
    split
    · exact fun _ => rfl
    split
    · exact fun _ => rfl
    · exact fun hbad => absurd rfl hbad
  | .clear list =>
    exact locked_untouched (fun status => status ≠ .ok)
      (fun w hbad => editList_untouched (fun list c hbad => absurd rfl hbad) hbad) h

theorem locked_state {α : Type} {refuse : Status → α} {f : MdioWorld ε → α × MdioWorld ε} {w : MdioWorld ε}
    (hf : ∀ w, Untouched w (f w).2) : Untouched w (locked P w refuse f).2 :=
  locked_untouched (fun _ => True) (fun w _ => hf w) trivial

theorem serviceGetPolicy_untouched (w : MdioWorld ε) (d : ℕ) : Untouched w (serviceGetPolicy P w d).2 := by
  refine locked_state fun w => ?_
  split
  · exact ⟨rfl,rfl⟩
  · exact ⟨rfl,rfl⟩

theorem serviceFindByPhy_untouched (w : MdioWorld ε) (phy : UInt8) : Untouched w (serviceFindByPhy P w phy).2 := by
  refine locked_state fun w => ?_
  split
  · exact ⟨rfl,rfl⟩
  · exact ⟨rfl,rfl⟩

/-- What the service tells is what it has. -/
theorem serviceGetPolicy_result (w : MdioWorld ε) (d : ℕ) :
    (∃ status, status ≠ .ok ∧ (serviceGetPolicy P w d).1 = .error status) ∨
      ∃ c, w.state.devices.items[d]? = some c ∧ (serviceGetPolicy P w d).1 = .ok (policyEntry c) := by
  unfold serviceGetPolicy locked
  dsimp only
  split
  · rename_i hlocked
    exact Or.inl ⟨_,hlocked,rfl⟩
  · split
    · exact Or.inl ⟨.notFound,by simp,rfl⟩
    · rename_i c hc
      exact Or.inr ⟨c,hc,rfl⟩

theorem policy_lt {c : MdioPhyConfig} (h : c.Valid) : c.policy < 256 := by
  obtain ⟨-,-,-,-,-,hpolicy,-⟩ := h.shaped
  match c.policy, hpolicy with
  | 0, _ => decide
  | 1, _ => decide
  | _ + 2, hpolicy => exact absurd rfl hpolicy

@[simp] theorem field_toNat (bytes : Wire.Bytes) (h : bytes.length = 2) : (UInt16.ofNat (readBE bytes)).toNat = readBE bytes := by
  have hlt := readBE_lt bytes
  rw [h] at hlt
  exact UInt16.toNat_ofNat_of_lt' hlt

theorem ofNat_field (v : UInt16) : UInt16.ofNat (readBE (beBytes 2 v.toNat)) = v := by
  rw [readBE_beBytes v.toNat_lt, UInt16.ofNat_toNat]

theorem mdioRule_bytes (address list : UInt8) (r : MdioRule) : (mdioBus P).rule (address :: list :: mdioRuleBytes r) = r := by
  change (⟨r.reg,UInt16.ofNat (readBE (beBytes 2 r.val.toNat)),UInt16.ofNat (readBE (beBytes 2 r.mask.toNat))⟩ : MdioRule) = r
  rw [ofNat_field, ofNat_field]

theorem mdioBytes_rule (address list : UInt8) {bytes : List UInt8} (hlength : bytes.length = 5) :
    mdioRuleBytes ((mdioBus P).rule (address :: list :: bytes)) = bytes := by
  match bytes, hlength with
  | [reg,v1,v0,m1,m0], _ =>
    change reg :: beBytes 2 (UInt16.ofNat (readBE [v1,v0])).toNat ++ beBytes 2 (UInt16.ofNat (readBE [m1,m0])).toNat = _
    rw [field_toNat [v1,v0] rfl, field_toNat [m1,m0] rfl]
    have hval := beBytes_readBE [v1,v0]
    have hmask := beBytes_readBE [m1,m0]
    simp only [List.length_cons, List.length_nil, Nat.zero_add, Nat.reduceAdd] at hval hmask
    rw [hval, hmask]
    rfl

theorem readMdioRule_bytes (r : MdioRule) (rest : Wire.Bytes) : readMdioRule (mdioRuleBytes r ++ rest) = some (r,rest) := by
  have hval : r.val.toNat < 256^2 := r.val.toNat_lt
  have hmask : r.mask.toNat < 256^2 := r.mask.toNat_lt
  have hbytes : mdioRuleBytes r ++ rest = r.reg :: (beBytes 2 r.val.toNat ++ (beBytes 2 r.mask.toNat ++ rest)) := by
    simp [mdioRuleBytes]
  rw [hbytes, readMdioRule]
  refine read_step (readByte_cons _ _) ?_
  refine read_step (readNum_beBytes hval _) ?_
  refine read_step (readNum_beBytes hmask _) ?_
  simp

theorem mdioBus_lawful : LawfulBus (mdioBus P) mdioView (mdioPerform P) readMdioRule Untouched where
  bytes_length _ := rfl
  rule_bytes := mdioRule_bytes
  bytes_rule address list _ hlength := mdioBytes_rule address list hlength
  reads := readMdioRule_bytes
  counts := by
    change mdioRulesMax < 256^2
    decide
  fits := by
    change 5 + (mdioRulesMax + mdioRulesMax) * 5 ≤ maxPayload - 6
    decide
  trans h h' := ⟨h'.1.trans h.1,h'.2.trans h.2⟩
  refl _ := ⟨rfl,rfl⟩
  view_congr deviceId h := by rw [mdioView, h.1, mdioView]
  find := serviceFindByPhy_untouched
  getPolicy w deviceId := by
    have hget := serviceGetPolicy_untouched (P := P) w deviceId
    unfold mdioBus
    dsimp only
    split
    · rename_i heq
      rwa [heq] at hget
    · rename_i heq
      rwa [heq] at hget
  getPolicy_view w deviceId p hget := by
    have hresult := serviceGetPolicy_result (P := P) w deviceId
    unfold mdioBus at hget
    dsimp only at hget
    split at hget
    · cases hget
    · rename_i entry w' heq
      rw [heq] at hresult
      obtain ⟨status,-,herror⟩ | ⟨c,hc,hok⟩ := hresult
      · cases herror
      · obtain rfl := Except.ok.inj hok
        rw [mdioView, hc, ← Except.ok.inj hget]
        exact ⟨rfl,policy_lt (w.state.devices.valid c (List.mem_of_getElem? hc))⟩
  getPolicy_error w deviceId hget := by
    have hresult := serviceGetPolicy_result (P := P) w deviceId
    unfold mdioBus at hget
    dsimp only at hget
    split at hget
    · rename_i status w' heq
      rw [heq] at hresult
      obtain ⟨status',hbad,herror⟩ | ⟨c,hc,hok⟩ := hresult
      · exact hbad ((Except.error.inj herror).symm.trans (Except.error.inj hget))
      · cases hok
    · cases hget
  set _ _ _ := rfl
  clear _ _ _ := rfl
  delete _ _ _ _ := rfl
  add _ _ _ _ := rfl
  failed := mdioPerform_failed

end

/-! ## Both -/

/-- On both buses a policy reads back from the answer, and every request does what it stands for. -/
theorem policy_requests_faithful {ε : Type} (P : MdioPlatform ε) :
    PolicyFaithful (i2cBus (ε := ε)) i2cView i2cPerform readI2cRule Untouched ∧
      PolicyFaithful (mdioBus P) mdioView (mdioPerform P) readMdioRule Untouched :=
  ⟨i2cBus_lawful.policyFaithful,mdioBus_lawful.policyFaithful⟩

end Bvstk.Dcp2
