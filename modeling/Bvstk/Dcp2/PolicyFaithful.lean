import Bvstk.Dcp2.PolicyRequests

/-! # Policy requests say and do what they stand for

An answer to `POLICY_GET` reads back as the policy. Every other request does what its edit does
in the service of the bus, and a request that is none changes nothing.
-/
namespace Bvstk.Dcp2
open Config I2c Mdio Surfaces Wire

/-! ## What requests stand for -/

inductive PolicyEdit (ρ : Type) where
  | set (mode : PolicyMode)
  | add (list : PolicyMode) (rule : ρ)
  | delete (list : PolicyMode) (rule : ρ)
  | clear (list : PolicyMode)

def PolicyEdit.opcode {ρ : Type} : PolicyEdit ρ → ℕ
  | .set _ => opPolicySet
  | .add _ _ => opPolicyRuleAdd
  | .delete _ _ => opPolicyRuleDelete
  | .clear _ => opPolicyClear

/-- The body of a request for the device at an address. -/
def PolicyEdit.body {ρ : Type} (bytes : ρ → List UInt8) (address : UInt8) : PolicyEdit ρ → List UInt8
  | .set mode => [address,UInt8.ofNat mode.code]
  | .add list rule => address :: UInt8.ofNat list.code :: bytes rule
  | .delete list rule => address :: UInt8.ofNat list.code :: bytes rule
  | .clear list => [address,UInt8.ofNat list.code]

/-- A request that is to be carried out. -/
def WellFormed {ρ : Type} (bytes : ρ → List UInt8) (maxAddress : UInt8) (opcode : ℕ) (body : List UInt8) : Prop :=
  ∃ address ≤ maxAddress, opcode = opPolicyGet ∧ body = [address] ∨
    ∃ e : PolicyEdit ρ, opcode = e.opcode ∧ body = e.body bytes address

/-- Reads an answer to `POLICY_GET`: the mode, two counts, the rules of one list and of the other. -/
def readPolicy {ρ : Type} (readRule : Wire.Bytes → Option (ρ × Wire.Bytes)) (answer : Wire.Bytes) : Option (PolicyView ρ) := do
  let (mode,bytes) ← readByte answer
  let (white,bytes) ← readNum 2 bytes
  let (black,bytes) ← readNum 2 bytes
  let (whitelist,bytes) ← readMany readRule white bytes
  let (blacklist,bytes) ← readMany readRule black bytes
  if bytes = [] then some ⟨mode.toNat,whitelist,blacklist⟩ else none

/-- What the requests of a bus do, in terms of its service. -/
structure PolicyFaithful {ω ρ : Type} (B : PolicyBus ω ρ) (view : ω → ℕ → Option (PolicyView ρ))
    (perform : ω → ℕ → PolicyEdit ρ → Status × ω) (readRule : Wire.Bytes → Option (ρ × Wire.Bytes))
    (Unchanged : ω → ω → Prop) : Prop where
  /-- A positive answer is the policy, and it fits. -/
  answer : ∀ capacity w address deviceId w', B.findDevice w address = (.ok deviceId,w') →
    (processPolicy B opPolicyGet [address] capacity (some w)).1.1 = .ok →
    readPolicy readRule (processPolicy B opPolicyGet [address] capacity (some w)).1.2 = view w deviceId ∧
      (view w deviceId).isSome = true ∧
      (processPolicy B opPolicyGet [address] capacity (some w)).1.2.length ≤ min capacity (maxPayload - 6)
  /-- There is one whenever the service gives the policy out and a frame may be of full length. -/
  answered : ∀ capacity w address deviceId w' p w'', address ≤ B.maxAddress → B.findDevice w address = (.ok deviceId,w') →
    B.getPolicy w' deviceId = (.ok p,w'') → p.whitelist.length ≤ B.rulesMax → p.blacklist.length ≤ B.rulesMax →
    maxPayload - 6 ≤ capacity → (processPolicy B opPolicyGet [address] capacity (some w)).1.1 = .ok
  /-- Every edit is the call of the service. -/
  edit : ∀ capacity w address deviceId w' (e : PolicyEdit ρ), address ≤ B.maxAddress →
    B.findDevice w address = (.ok deviceId,w') →
    processPolicy B e.opcode (e.body B.bytes address) capacity (some w) =
      ((policyStatus (perform w' deviceId e).1,[]),some (perform w' deviceId e).2)
  unknown : ∀ capacity w address status w' opcode body, WellFormed B.bytes B.maxAddress opcode body → body.head? = some address →
    B.findDevice w address = (.error status,w') →
    processPolicy B opcode body capacity (some w) = ((policyStatus status,[]),some w')
  missing : ∀ capacity opcode body, WellFormed B.bytes B.maxAddress opcode body →
    processPolicy B opcode body capacity none = ((.busy,[]),none)
  malformed : ∀ capacity opcode body service, ¬WellFormed B.bytes B.maxAddress opcode body →
    (processPolicy B opcode body capacity service).1.1 ∈ [Status.unsupported,.malformed,.range] ∧
      (processPolicy B opcode body capacity service).1.2 = [] ∧ (processPolicy B opcode body capacity service).2 = service
  /-- Nothing happened unless the answer is positive, and by asking for the policy. -/
  unchanged : ∀ capacity opcode body w, (processPolicy B opcode body capacity (some w)).1.1 ≠ .ok ∨ opcode = opPolicyGet →
    ∃ w', (processPolicy B opcode body capacity (some w)).2 = some w' ∧ Unchanged w w'

/-! ## From the bus to its requests -/

/-- What a bus has to provide for its requests to be faithful. -/
structure LawfulBus {ω ρ : Type} (B : PolicyBus ω ρ) (view : ω → ℕ → Option (PolicyView ρ))
    (perform : ω → ℕ → PolicyEdit ρ → Status × ω) (readRule : Wire.Bytes → Option (ρ × Wire.Bytes))
    (Unchanged : ω → ω → Prop) : Prop where
  bytes_length : ∀ r, (B.bytes r).length = B.ruleSize
  rule_bytes : ∀ address list r, B.rule (address :: list :: B.bytes r) = r
  bytes_rule : ∀ address list bytes, bytes.length = B.ruleSize → B.bytes (B.rule (address :: list :: bytes)) = bytes
  reads : ∀ r rest, readRule (B.bytes r ++ rest) = some (r,rest)
  counts : B.rulesMax < 256^2
  fits : 5 + (B.rulesMax + B.rulesMax) * B.ruleSize ≤ maxPayload - 6
  trans : ∀ {w w' w''}, Unchanged w w' → Unchanged w' w'' → Unchanged w w''
  refl : ∀ w, Unchanged w w
  view_congr : ∀ {w w'} deviceId, Unchanged w w' → view w' deviceId = view w deviceId
  find : ∀ w address, Unchanged w (B.findDevice w address).2
  getPolicy : ∀ w deviceId, Unchanged w (B.getPolicy w deviceId).2
  getPolicy_view : ∀ w deviceId p, (B.getPolicy w deviceId).1 = .ok p → view w deviceId = some p ∧ p.mode < 256
  getPolicy_error : ∀ w deviceId, (B.getPolicy w deviceId).1 ≠ .error .ok
  set : ∀ w deviceId mode, B.setPolicy w deviceId (PolicyMode.code mode) = perform w deviceId (.set mode)
  clear : ∀ w deviceId list, B.clearList w deviceId (PolicyMode.code list) = perform w deviceId (.clear list)
  delete : ∀ w deviceId list r, B.removeRule w deviceId (PolicyMode.code list) r = perform w deviceId (.delete list r)
  add : ∀ w deviceId list r, B.addRule w deviceId (PolicyMode.code list) r = perform w deviceId (.add list r)
  failed : ∀ w deviceId e, (perform w deviceId e).1 ≠ .ok → Unchanged w (perform w deviceId e).2

/-- A list is named by 0 or 1. -/
theorem code_of_le {list : UInt8} (h : ¬1 < list) : ∃ mode : PolicyMode, list = UInt8.ofNat mode.code := by
  have hle : list.toNat ≤ 1 := UInt8.le_iff_toNat_le.mp (UInt8.not_lt.mp h)
  rcases Nat.le_one_iff_eq_zero_or_eq_one.mp hle with hzero | hone
  · exact ⟨.whitelist,UInt8.toNat_inj.mp hzero⟩
  · exact ⟨.blacklist,UInt8.toNat_inj.mp hone⟩

@[simp] theorem code_toNat (mode : PolicyMode) : (UInt8.ofNat mode.code).toNat = mode.code := by
  cases mode with
  | whitelist => rfl
  | blacklist => rfl

theorem code_le_one (mode : PolicyMode) : ¬(1 : UInt8) < UInt8.ofNat mode.code := by
  cases mode with
  | whitelist => decide
  | blacklist => decide

theorem policyStatus_ok {status : Status} : policyStatus status = .ok ↔ status = .ok := by
  cases status with
  | ok => simp [policyStatus]
  | _ => simp [policyStatus]

section
variable {ω ρ : Type} {B : PolicyBus ω ρ} {view : ω → ℕ → Option (PolicyView ρ)}
  {perform : ω → ℕ → PolicyEdit ρ → Status × ω} {readRule : Wire.Bytes → Option (ρ × Wire.Bytes)} {Unchanged : ω → ω → Prop}
variable (hB : LawfulBus B view perform readRule Unchanged) {opcode : ℕ} {body : List UInt8} {capacity : ℕ}
include hB

theorem LawfulBus.flatMap_length (rules : List ρ) : (rules.flatMap B.bytes).length = rules.length * B.ruleSize := by
  induction rules with
  | nil => simp
  | cons r rules ih => rw [List.flatMap_cons, List.length_append, hB.bytes_length, ih, List.length_cons, Nat.succ_mul, Nat.add_comm]

theorem LawfulBus.answer_length (p : PolicyView ρ) :
    (policyAnswer B p).length = 5 + (p.whitelist.length + p.blacklist.length) * B.ruleSize := by
  have hrules := hB.flatMap_length (p.whitelist ++ p.blacklist)
  rw [List.length_append] at hrules
  rw [policyAnswer, List.length_append, hrules, List.length_append, List.length_cons, beBytes_length, beBytes_length]

/-- An answer reads back, whatever the lengths of the lists. -/
theorem LawfulBus.readPolicy_answer {p : PolicyView ρ} (hmode : p.mode < 256) (hwhite : p.whitelist.length ≤ B.rulesMax)
    (hblack : p.blacklist.length ≤ B.rulesMax) : readPolicy readRule (policyAnswer B p) = some p := by
  have hcounts := hB.counts
  have hanswer : policyAnswer B p = UInt8.ofNat p.mode :: (beBytes 2 p.whitelist.length ++
      (beBytes 2 p.blacklist.length ++ (p.whitelist.flatMap B.bytes ++ (p.blacklist.flatMap B.bytes ++ [])))) := by
    simp [policyAnswer]
  rw [hanswer, readPolicy]
  refine read_step (readByte_cons _ _) ?_
  refine read_step (readNum_beBytes (by omega) _) ?_
  refine read_step (readNum_beBytes (by omega) _) ?_
  refine read_step (readMany_flatMap _ (fun r _ rest => hB.reads r rest) _) ?_
  refine read_step (readMany_flatMap _ (fun r _ rest => hB.reads r rest) _) ?_
  have hbyte : (UInt8.ofNat p.mode).toNat = p.mode := UInt8.toNat_ofNat_of_lt' hmode
  dsimp only
  rw [if_pos rfl, hbyte]

omit hB in
theorem opcode_range (e : PolicyEdit ρ) : opPolicySet ≤ e.opcode ∧ e.opcode ≤ opPolicyClear ∧ e.opcode ≠ opPolicyGet := by
  have hlist : ∀ opcode ∈ [opPolicySet,opPolicyRuleAdd,opPolicyRuleDelete,opPolicyClear],
      opPolicySet ≤ opcode ∧ opcode ≤ opPolicyClear ∧ opcode ≠ opPolicyGet := by decide
  apply hlist
  cases e with
  | set mode => exact List.mem_cons_self
  | add list r => exact List.mem_cons_of_mem _ List.mem_cons_self
  | delete list r => exact List.mem_cons_of_mem _ (List.mem_cons_of_mem _ List.mem_cons_self)
  | clear list => exact List.mem_cons_of_mem _ (List.mem_cons_of_mem _ (List.mem_cons_of_mem _ List.mem_cons_self))

theorem LawfulBus.body_length (e : PolicyEdit ρ) (address : UInt8) :
    (e.body B.bytes address).length = B.bodySize e.opcode := by
  cases e with
  | set mode => rfl
  | add list r =>
    change (B.bytes r).length + 1 + 1 = 2 + B.ruleSize
    rw [hB.bytes_length, Nat.add_comm 2]
  | delete list r =>
    change (B.bytes r).length + 1 + 1 = 2 + B.ruleSize
    rw [hB.bytes_length, Nat.add_comm 2]
  | clear list => rfl

omit hB in
theorem body_head (e : PolicyEdit ρ) (address : UInt8) :
    (e.body B.bytes address).head? = some address ∧ ¬1 < (e.body B.bytes address).getD 1 0 := by
  cases e with
  | set mode => exact ⟨rfl,code_le_one mode⟩
  | add list r => exact ⟨rfl,code_le_one list⟩
  | delete list r => exact ⟨rfl,code_le_one list⟩
  | clear list => exact ⟨rfl,code_le_one list⟩

omit hB in
theorem getD_of_head {address : UInt8} (h : body.head? = some address) : body.getD 0 0 = address := by
  cases body with
  | nil => cases h
  | cons b body => exact Option.some.inj h

/-- What passes the checks of the head. -/
def Accepted (B : PolicyBus ω ρ) (opcode : ℕ) (body : List UInt8) : Prop :=
  (opPolicySet ≤ opcode ∧ opcode ≤ opPolicyClear) ∧ body.length = B.bodySize opcode ∧
    (opcode ≠ opPolicyGet → ¬1 < body.getD 1 0) ∧ body.getD 0 0 ≤ B.maxAddress

theorem LawfulBus.accepted_of_wellFormed (h : WellFormed B.bytes B.maxAddress opcode body) : Accepted B opcode body := by
  obtain ⟨address,haddress,⟨rfl,rfl⟩ | ⟨e,rfl,rfl⟩⟩ := h
  · exact ⟨⟨by decide,by decide⟩,rfl,fun hne => absurd rfl hne,haddress⟩
  · obtain ⟨hhead,hlist⟩ := body_head (B := B) e address
    obtain ⟨hlow,hhigh,-⟩ := opcode_range e
    exact ⟨⟨hlow,hhigh⟩,hB.body_length e address,fun _ => hlist,by rwa [getD_of_head hhead]⟩

/-- A request with a list and a rule. -/
theorem LawfulBus.rule_body (hlength : body.length = 2 + B.ruleSize) (hlist : ¬1 < body.getD 1 0) :
    ∃ mode : PolicyMode, body = body.getD 0 0 :: UInt8.ofNat mode.code :: B.bytes (B.rule body) := by
  match body, hlength, hlist with
  | [], hlength, _ =>
    rw [List.length_nil] at hlength
    omega
  | [_], hlength, _ =>
    rw [List.length_singleton] at hlength
    omega
  | address :: list :: bytes, hlength, hlist =>
    obtain ⟨mode,rfl⟩ := code_of_le hlist
    have hbytes := hB.bytes_rule address (UInt8.ofNat mode.code) bytes (by simp only [List.length_cons] at hlength; omega)
    exact ⟨mode,by rw [hbytes]; rfl⟩

omit hB in
theorem list_body (hlength : body.length = 2) (hlist : ¬1 < body.getD 1 0) :
    ∃ mode : PolicyMode, body = [body.getD 0 0,UInt8.ofNat mode.code] := by
  match body, hlength, hlist with
  | [address,list], _, hlist =>
    obtain ⟨mode,rfl⟩ := code_of_le hlist
    exact ⟨mode,rfl⟩

theorem LawfulBus.wellFormed_of_accepted (h : Accepted B opcode body) : WellFormed B.bytes B.maxAddress opcode body := by
  obtain ⟨⟨hlow,hhigh⟩,hlength,hlist,haddress⟩ := h
  refine ⟨body.getD 0 0,haddress,?_⟩
  obtain rfl | rfl | rfl | rfl | rfl : opcode = opPolicySet ∨ opcode = opPolicyGet ∨ opcode = opPolicyRuleAdd ∨
      opcode = opPolicyRuleDelete ∨ opcode = opPolicyClear := by
    simp only [opPolicySet, opPolicyGet, opPolicyRuleAdd, opPolicyRuleDelete, opPolicyClear] at *
    omega
  · obtain ⟨mode,hbody⟩ := list_body hlength (hlist (by decide))
    exact Or.inr ⟨.set mode,rfl,hbody⟩
  · match body, hlength with
    | [address], _ => exact Or.inl ⟨rfl,rfl⟩
  · obtain ⟨mode,hbody⟩ := hB.rule_body hlength (hlist (by decide))
    exact Or.inr ⟨.add mode (B.rule body),rfl,hbody⟩
  · obtain ⟨mode,hbody⟩ := hB.rule_body hlength (hlist (by decide))
    exact Or.inr ⟨.delete mode (B.rule body),rfl,hbody⟩
  · obtain ⟨mode,hbody⟩ := list_body hlength (hlist (by decide))
    exact Or.inr ⟨.clear mode,rfl,hbody⟩

omit hB in
/-- Requests after the checks of their heads. -/
theorem processPolicy_found {w w' : ω} {deviceId : ℕ} (h : Accepted B opcode body)
    (hfind : B.findDevice w (body.getD 0 0) = (.ok deviceId,w')) : processPolicy B opcode body capacity (some w) =
      if opcode = opPolicyGet then ((answerPolicy B capacity w' deviceId).1,some (answerPolicy B capacity w' deviceId).2)
      else ((policyStatus (editPolicy B opcode body w' deviceId).1,[]),some (editPolicy B opcode body w' deviceId).2) := by
  obtain ⟨⟨hlow,hhigh⟩,hlength,hlist,haddress⟩ := h
  unfold processPolicy
  rw [if_neg (by omega), if_neg (not_ne_iff.mpr hlength), if_neg (fun hbad => hlist hbad.1 hbad.2),
    if_neg (UInt8.not_lt.mpr haddress)]
  dsimp only
  rw [hfind]

omit hB in
theorem processPolicy_unknown {w w' : ω} {status : Status} (h : Accepted B opcode body)
    (hfind : B.findDevice w (body.getD 0 0) = (.error status,w')) :
    processPolicy B opcode body capacity (some w) = ((policyStatus status,[]),some w') := by
  obtain ⟨⟨hlow,hhigh⟩,hlength,hlist,haddress⟩ := h
  unfold processPolicy
  rw [if_neg (by omega), if_neg (not_ne_iff.mpr hlength), if_neg (fun hbad => hlist hbad.1 hbad.2),
    if_neg (UInt8.not_lt.mpr haddress)]
  dsimp only
  rw [hfind]

omit hB in
theorem processPolicy_missing (h : Accepted B opcode body) :
    processPolicy B opcode body capacity none = ((policyStatus .notReady,[]),none) := by
  obtain ⟨⟨hlow,hhigh⟩,hlength,hlist,haddress⟩ := h
  unfold processPolicy
  rw [if_neg (by omega), if_neg (not_ne_iff.mpr hlength), if_neg (fun hbad => hlist hbad.1 hbad.2),
    if_neg (UInt8.not_lt.mpr haddress)]

omit hB in
theorem processPolicy_refused (capacity : ℕ) (h : ¬Accepted B opcode body) (service : Option ω) :
    ∃ status ∈ [Status.unsupported,.malformed,.range], processPolicy B opcode body capacity service = ((status,[]),service) := by
  unfold processPolicy
  split
  · exact ⟨.unsupported,by simp,rfl⟩
  rename_i hop
  split
  · exact ⟨.malformed,by simp,rfl⟩
  rename_i hlength
  split
  · exact ⟨.malformed,by simp,rfl⟩
  rename_i hlist
  split
  · exact ⟨.range,by simp,rfl⟩
  rename_i haddress
  exact absurd ⟨⟨by omega,by omega⟩,not_ne_iff.mp hlength,fun hne hlt => hlist ⟨hne,hlt⟩,UInt8.not_lt.mp haddress⟩ h

/-- The call of an edit. -/
theorem LawfulBus.editPolicy_eq (e : PolicyEdit ρ) (address : UInt8) (w : ω) (deviceId : ℕ) :
    editPolicy B e.opcode (e.body B.bytes address) w deviceId = perform w deviceId e := by
  cases e with
  | set mode =>
    rw [← hB.set, ← code_toNat mode]
    rfl
  | add list r =>
    have hrule := hB.rule_bytes address (UInt8.ofNat list.code) r
    rw [← hB.add, ← code_toNat list]
    exact congrArg (B.addRule w deviceId _) hrule
  | delete list r =>
    have hrule := hB.rule_bytes address (UInt8.ofNat list.code) r
    rw [← hB.delete, ← code_toNat list]
    exact congrArg (B.removeRule w deviceId _) hrule
  | clear list =>
    rw [← hB.clear, ← code_toNat list]
    rfl

theorem LawfulBus.edit_faithful {w w' : ω} {address : UInt8} {deviceId : ℕ} (e : PolicyEdit ρ) (haddress : address ≤ B.maxAddress)
    (hfind : B.findDevice w address = (.ok deviceId,w')) :
    processPolicy B e.opcode (e.body B.bytes address) capacity (some w) =
      ((policyStatus (perform w' deviceId e).1,[]),some (perform w' deviceId e).2) := by
  have haccepted := hB.accepted_of_wellFormed ⟨address,haddress,Or.inr ⟨e,rfl,rfl⟩⟩
  rw [← getD_of_head (body_head (B := B) e address).1] at hfind
  rw [processPolicy_found haccepted hfind, if_neg (opcode_range e).2.2, hB.editPolicy_eq]

/-- What `POLICY_GET` answers. -/
theorem LawfulBus.answer_faithful {w : ω} {deviceId : ℕ} (hok : (answerPolicy B capacity w deviceId).1.1 = .ok) :
    readPolicy readRule (answerPolicy B capacity w deviceId).1.2 = view w deviceId ∧ (view w deviceId).isSome = true ∧
      (answerPolicy B capacity w deviceId).1.2.length ≤ min capacity (maxPayload - 6) := by
  have hview := hB.getPolicy_view w deviceId
  unfold answerPolicy at hok ⊢
  split
  · rename_i status w' hget
    simp only [hget, policyStatus_ok] at hok
    rw [hok] at hget
    exact absurd (congrArg Prod.fst hget) (hB.getPolicy_error w deviceId)
  · rename_i p w' hget
    rw [hget] at hok hview
    dsimp only at hok ⊢
    obtain ⟨hsome,hmode⟩ := hview p rfl
    split
    · rename_i hlong
      rw [if_pos hlong] at hok
      cases hok
    rename_i hfit
    rw [if_neg hfit] at hok
    split
    · rename_i hlong
      rw [if_pos hlong] at hok
      cases hok
    rename_i hroom
    rw [not_or, Nat.not_lt, Nat.not_lt] at hfit hroom
    refine ⟨?_,by rw [hsome]; rfl,?_⟩
    · rw [hsome]
      exact hB.readPolicy_answer hmode hfit.1 hfit.2
    · rw [hB.answer_length]
      exact le_min hroom.1 hroom.2

theorem LawfulBus.answer_unchanged (w : ω) (deviceId : ℕ) : Unchanged w (answerPolicy B capacity w deviceId).2 := by
  have hget := hB.getPolicy w deviceId
  unfold answerPolicy
  split
  · rename_i heq
    rwa [heq] at hget
  · rename_i heq
    rw [heq] at hget
    dsimp only
    split
    · exact hget
    split
    · exact hget
    · exact hget

/-- Full frames have room for every policy. -/
theorem LawfulBus.answered {w w' : ω} {deviceId : ℕ} {p : PolicyView ρ} (hget : B.getPolicy w deviceId = (.ok p,w'))
    (hwhite : p.whitelist.length ≤ B.rulesMax) (hblack : p.blacklist.length ≤ B.rulesMax)
    (hcapacity : maxPayload - 6 ≤ capacity) : (answerPolicy B capacity w deviceId).1.1 = .ok := by
  have hsum := Nat.mul_le_mul_right B.ruleSize (Nat.add_le_add hwhite hblack)
  have hfits := hB.fits
  unfold answerPolicy
  rw [hget]
  dsimp only
  rw [if_neg (by omega), if_neg (by omega)]

omit hB in
theorem get_accepted {address : UInt8} (h : address ≤ B.maxAddress) : Accepted B opPolicyGet [address] :=
  ⟨⟨by decide,by decide⟩,rfl,fun hne => absurd rfl hne,h⟩

theorem LawfulBus.processPolicy_unchanged (w : ω)
    (hquiet : (processPolicy B opcode body capacity (some w)).1.1 ≠ .ok ∨ opcode = opPolicyGet) :
    ∃ w', (processPolicy B opcode body capacity (some w)).2 = some w' ∧ Unchanged w w' := by
  by_cases hacc : Accepted B opcode body
  swap
  · obtain ⟨status,-,heq⟩ := processPolicy_refused capacity hacc (some w)
    exact ⟨w,by rw [heq],hB.refl w⟩
  have hsearch := hB.find w (body.getD 0 0)
  cases hfind : B.findDevice w (body.getD 0 0) with
  | mk found w' =>
    rw [hfind] at hsearch
    cases found with
    | error status => exact ⟨w',by rw [processPolicy_unknown hacc hfind],hsearch⟩
    | ok deviceId =>
      rw [processPolicy_found hacc hfind] at hquiet ⊢
      split
      · exact ⟨_,rfl,hB.trans hsearch (hB.answer_unchanged w' deviceId)⟩
      · rename_i hget
        rw [if_neg hget] at hquiet
        have hfailed := hquiet.resolve_right hget
        obtain ⟨address,-,⟨hop,-⟩ | ⟨e,rfl,rfl⟩⟩ := hB.wellFormed_of_accepted hacc
        · exact absurd hop hget
        · rw [hB.editPolicy_eq] at hfailed ⊢
          refine ⟨_,rfl,hB.trans hsearch (hB.failed w' deviceId e fun hok => hfailed ?_)⟩
          exact policyStatus_ok.mpr hok

/-- A bus as it has to be makes its requests faithful. -/
theorem LawfulBus.policyFaithful : PolicyFaithful B view perform readRule Unchanged where
  answer capacity w address deviceId w' hfind hok := by
    by_cases hacc : Accepted B opPolicyGet [address]
    · have hsame : view w' deviceId = view w deviceId := by
        have hsearch := hB.find w address
        rw [hfind] at hsearch
        exact hB.view_congr deviceId hsearch
      rw [processPolicy_found hacc hfind, if_pos rfl] at hok ⊢
      rw [← hsame]
      exact hB.answer_faithful hok
    · obtain ⟨status,hstatus,heq⟩ := processPolicy_refused capacity hacc (some w)
      rw [heq] at hok
      obtain rfl : status = .ok := hok
      simp at hstatus
  answered capacity w address deviceId w' p w'' haddress hfind hget hwhite hblack hcapacity := by
    rw [processPolicy_found (get_accepted haddress) hfind, if_pos rfl]
    exact hB.answered hget hwhite hblack hcapacity
  edit capacity w address deviceId w' e haddress hfind := hB.edit_faithful e haddress hfind
  unknown capacity w address status w' opcode body hwf hhead hfind := by
    rw [← getD_of_head hhead] at hfind
    exact processPolicy_unknown (hB.accepted_of_wellFormed hwf) hfind
  missing capacity opcode body hwf := processPolicy_missing (hB.accepted_of_wellFormed hwf)
  malformed capacity opcode body service hwf := by
    obtain ⟨status,hstatus,heq⟩ := processPolicy_refused capacity
      (fun hacc => hwf (hB.wellFormed_of_accepted hacc)) service
    rw [heq]
    exact ⟨hstatus,rfl,rfl⟩
  unchanged capacity opcode body w hquiet := hB.processPolicy_unchanged w hquiet

end

end Bvstk.Dcp2
