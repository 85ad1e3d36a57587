import Bvstk.Library.Machine
import Bvstk.Mdio.ServiceEffect

/-! # The MDIO policy is never bypassed, and every write is audited

The service as a machine that anyone may drive and whose bus may answer anything. A bus
write goes only where the policy of a configured PHY allows it; the audit trail of each
write is one episode.
-/
namespace Bvstk.Mdio
open Config Events CallLog Audit Machine
variable {ε : Type}

inductive MdioOp where
  | read (d : ℕ) (r : UInt8) (source : EventSource) (timeoutMs : ℕ)
  | write (d : ℕ) (r : UInt8) (v : UInt16) (source : EventSource) (timeoutMs : ℕ)
  | invalidate (d : ℕ)
  | setPolicy (d mode : ℕ)
  | ruleAdd (d list : ℕ) (reg : UInt8) (value mask : UInt16)
  | ruleRemove (d list : ℕ) (reg : UInt8) (value mask : UInt16)
  | ruleClearList (d list : ℕ)
  | setConfig (d : ℕ) (c : MdioPhyConfig)
  | step (now : UInt64) (timeoutMs : ℕ)

/-- One operation, and the status it returns. -/
def mdioStep (P : MdioPlatform ε) (w : MdioWorld ε) : MdioOp → MdioWorld ε × Status
  | .read d r source timeoutMs =>
    let out := serviceReadFrom P w d r source timeoutMs
    (out.2,out.1.1)
  | .write d r v source timeoutMs => (serviceWrite P w d r v source timeoutMs).swap
  | .invalidate d => (serviceInvalidate P w d).swap
  | .setPolicy d mode => (serviceSetPolicy P w d mode).swap
  | .ruleAdd d list reg value mask => (serviceRuleAdd P w d list reg value mask).swap
  | .ruleRemove d list reg value mask => (serviceRuleRemove P w d list reg value mask).swap
  | .ruleClearList d list => (serviceRuleClearList P w d list).swap
  | .setConfig d c => (serviceSetConfig P w d c).swap
  | .step now timeoutMs => (serviceStep P w now timeoutMs).swap

/-- The service with these PHYs, and nothing called yet. -/
def MdioState.start (s : MdioState) (env : ε) : MdioWorld ε := ⟨s,env,[]⟩

/-- Neither a write nor the worker. -/
def MdioOp.Silent : MdioOp → Prop
  | .write .. => False
  | .step .. => False
  | _ => True

/-- What may be seen of an operation: of an accepted write one episode, of a refused one
nothing, of the worker the episodes of at most four captured writes. -/
inductive Accounted (P : MdioPlatform ε) (w : MdioWorld ε) : MdioOp → List (Mark MdioWrite) → Prop where
  | accepted {d : ℕ} {c : MdioPhyConfig} {r : UInt8} {v : UInt16} {source : EventSource} {timeoutMs : ℕ}
      {l : List (Mark MdioWrite)} (hlock : (P.lock w.env).1 = .ok) (hknown : w.state.devices.items[d]? = some c)
      (hreg : r < c.regCount) (h : Episode (mdioWrite c.phyAddr r v) l) :
      Accounted P w (.write d r v source timeoutMs) l
  | refused {d : ℕ} {r : UInt8} {v : UInt16} {source : EventSource} {timeoutMs : ℕ}
      (hno : (P.lock w.env).1 ≠ .ok ∨ ∀ c, w.state.devices.items[d]? = some c → c.regCount ≤ r) :
      Accounted P w (.write d r v source timeoutMs) []
  | stepped {now : UInt64} {timeoutMs n : ℕ} {l : List (Mark MdioWrite)} (hn : n ≤ 4)
      (h : Captured w.state.devices n l) : Accounted P w (.step now timeoutMs) l
  | silent {op : MdioOp} (hop : op.Silent) : Accounted P w op []

theorem Accounted.bracketed {P : MdioPlatform ε} {w : MdioWorld ε} {op : MdioOp} {l : List (Mark MdioWrite)}
    (h : Accounted P w op l) : Bracketed l := by
  cases h with
  | accepted _ _ _ hepisode => exact hepisode.bracketed
  | refused _ => exact .nil
  | stepped _ hcaptured => exact hcaptured.bracketed
  | silent _ => exact .nil

section
variable (P : MdioPlatform ε)

theorem logs_write (w : MdioWorld ε) (d : ℕ) (r : UInt8) (v : UInt16) (source : EventSource) (timeoutMs : ℕ) :
    ∃ l, Accounted P w (.write d r v source timeoutMs) l ∧
      Logs Permitted MdioCall.mark l w (serviceWrite P w d r v source timeoutMs).2 := by
  unfold serviceWrite
  by_cases hlock : (P.lock w.env).1 = .ok
  · rw [locked_ok P hlock]
    have henv : Does [] w { w with env := (P.lock w.env).2 } := does_of_eq rfl rfl
    cases hknown : w.state.devices.items[d]? with
    | none => exact ⟨[],.refused (Or.inr (by simp [hknown])),henv.log⟩
    | some c =>
      dsimp only
      split
      · rename_i hreg
        exact ⟨[],.refused (Or.inr (by simp [hknown, hreg])),henv.log⟩
      · rename_i hreg
        obtain ⟨l,hepisode,hwrite⟩ := does_writePhy P (w := { w with env := (P.lock w.env).2 }) hknown r v source
          timeoutMs
        exact ⟨l,.accepted hlock hknown (UInt8.not_le.mp hreg) hepisode,(henv.after hwrite).log⟩
  · exact ⟨[],.refused (Or.inl hlock),(does_unlocked P hlock id _).log⟩

theorem logs_step (w : MdioWorld ε) (now : UInt64) (timeoutMs : ℕ) :
    ∃ n l, n ≤ 4 ∧ Captured w.state.devices n l ∧
      Logs Permitted MdioCall.mark l w (serviceStep P w now timeoutMs).2 := by
  unfold serviceStep
  by_cases hlock : (P.lock w.env).1 = .ok
  · rw [locked_ok P hlock]
    have henv : Does [] w { w with env := (P.lock w.env).2 } := does_of_eq rfl rfl
    obtain ⟨n,l,hn,hcaptured,hwork⟩ := does_work P now timeoutMs mailboxCount { w with env := (P.lock w.env).2 }
    exact ⟨n,l,hn,hcaptured,(henv.after hwork).log⟩
  · exact ⟨0,[],Nat.zero_le 4,.nil,(does_unlocked P hlock id _).log⟩

theorem logs_setConfig (w : MdioWorld ε) (d : ℕ) (c : MdioPhyConfig) :
    Logs Permitted MdioCall.mark [] w (serviceSetConfig P w d c).2 := by
  unfold serviceSetConfig
  split
  · refine logs_silent P w id _ fun w' => ?_
    split
    · split
      · exact logs_refl w'
      · split
        · exact logs_refl w'
        · exact logs_applyConfig P w' d _ c _
    · exact logs_refl w'
  · exact logs_refl w

theorem logs_read (w : MdioWorld ε) (d : ℕ) (r : UInt8) (source : EventSource) (timeoutMs : ℕ) :
    Logs Permitted MdioCall.mark [] w (serviceReadFrom P w d r source timeoutMs).2 := by
  refine logs_silent P w _ _ fun w' => ?_
  split
  · exact logs_refl w'
  · split
    · exact logs_refl w'
    · exact (does_readPhy P w' d _ r source timeoutMs false).log

theorem logs_invalidate (w : MdioWorld ε) (d : ℕ) :
    Logs Permitted MdioCall.mark [] w (serviceInvalidate P w d).2 := by
  refine logs_silent P w _ _ fun w' => ?_
  split
  · exact logs_refl w'
  · exact (does_invalidate P w' d _).log

theorem logs_setPolicy (w : MdioWorld ε) (d mode : ℕ) :
    Logs Permitted MdioCall.mark [] w (serviceSetPolicy P w d mode).2 := by
  refine logs_silent P w _ _ fun w' => ?_
  split
  · exact logs_refl w'
  · exact logs_editPhy w' d _

/-- Each operation accounts for what is seen of it. -/
theorem accounted (w : MdioWorld ε) (op : MdioOp) :
    ∃ l, Accounted P w op l ∧ Logs Permitted MdioCall.mark l w (mdioStep P w op).1 := by
  cases op with
  | read d r source timeoutMs => exact ⟨[],.silent trivial,logs_read P w d r source timeoutMs⟩
  | write d r v source timeoutMs => exact logs_write P w d r v source timeoutMs
  | invalidate d => exact ⟨[],.silent trivial,logs_invalidate P w d⟩
  | setPolicy d mode => exact ⟨[],.silent trivial,logs_setPolicy P w d mode⟩
  | ruleAdd d list reg value mask =>
    exact ⟨[],.silent trivial,logs_silent P w _ _ fun w' => logs_editList w' d list _⟩
  | ruleRemove d list reg value mask =>
    exact ⟨[],.silent trivial,logs_silent P w _ _ fun w' => logs_editList w' d list _⟩
  | ruleClearList d list => exact ⟨[],.silent trivial,logs_silent P w _ _ fun w' => logs_editList w' d list _⟩
  | setConfig d c => exact ⟨[],.silent trivial,logs_setConfig P w d c⟩
  | step now timeoutMs =>
    obtain ⟨n,l,hn,hcaptured,hstep⟩ := logs_step P w now timeoutMs
    exact ⟨l,.stepped hn hcaptured,hstep⟩

/-- The marks of a whole run are bracketed, and its writes permitted. -/
theorem run_bracketed (s : MdioState) (env : ε) (ops : List MdioOp) :
    ∃ l, Bracketed l ∧ Logs Permitted MdioCall.mark l (s.start env) (final (mdioStep P) (s.start env) ops) :=
  final_invariant (P := fun w : MdioWorld ε => ∃ l, Bracketed l ∧ Logs Permitted MdioCall.mark l (s.start env) w)
    (fun w op ⟨l,hl,hlog⟩ => by
      obtain ⟨l',haccounted,hstep⟩ := accounted P w op
      exact ⟨l ++ l',hl.append haccounted.bracketed,hlog.trans hstep⟩)
    ⟨[],.nil,logs_refl _⟩ ops

end

/-- The marks of a record. -/
def marks (calls : List (MdioState × MdioCall)) : List (Mark MdioWrite) := calls.filterMap fun p => p.2.mark

/-- In every run each bus write goes to a configured PHY below its register count and is
allowed by its policy at that moment. The audit trail is bracketed, and each further
operation accounts for its own part of it: an accepted write and each captured write with
one attempt, at most one bus write and one outcome, a captured write to an unknown PHY
with a denial, every other operation with nothing. -/
theorem mdio_policy_and_audit (P : MdioPlatform ε) (s : MdioState) (env : ε) (ops : List MdioOp) :
    let w := final (mdioStep P) (s.start env) ops
    (∀ s' phy reg v source status, (s',MdioCall.write phy reg v source status) ∈ w.calls →
      ∃ (d : ℕ) (c : MdioPhyConfig), s'.devices.items[d]? = some c ∧ c.phyAddr = phy ∧ reg < c.regCount ∧
        mdioPolicyAllows c reg v = true) ∧
    Bracketed (marks w.calls) ∧
    ∀ op, ∃ new, (mdioStep P w op).1.calls = w.calls ++ new ∧ Accounted P w op (marks new) := by
  intro w
  obtain ⟨l,hbracketed,new,hnew,hmarks,hpermitted⟩ := run_bracketed P s env ops
  have hcalls : w.calls = new := hnew
  refine ⟨?_,?_,fun op => ?_⟩
  · intro s' phy reg v source status hmem
    obtain ⟨d,c,hknown,haddr,hallows⟩ := hpermitted _ (hcalls ▸ hmem)
    exact ⟨d,c,hknown,haddr,lt_of_allows hallows,hallows⟩
  · rw [hcalls, marks, hmarks]
    exact hbracketed
  · obtain ⟨l',haccounted,new',hnew',hmarks',-⟩ := accounted P w op
    exact ⟨new',hnew',by rw [marks, hmarks']; exact haccounted⟩

end Bvstk.Mdio
