import Bvstk.Config.JsonValues

/-! # The version of a device file

`bvstk_device_profile_version`: whether a document is a profile of version 2 or a file of the
older kind, which has no `schema_version`.
-/
namespace Bvstk.Config
open JsonText (Piece Denotes Member Blank IsBlank commas stringToken utf8 Value)

/-! ## The scan -/

/-- The loop of `number` on a view. -/
def viewDigits (maximum : ℕ) : ℕ → Bytes → Option ℕ
  | n, [] => some n
  | n, c :: v =>
    if digit c = false then none
    else if maximum < c.toNat - 48 ∨ (maximum - (c.toNat - 48)) / 10 < n then none
    else viewDigits maximum (n * 10 + (c.toNat - 48)) v

/-- `number`: the decimal number a view is, without a leading zero. -/
def viewNumber (maximum : ℕ) : Bytes → Option ℕ
  | [] => none
  | c :: v => if v ≠ [] ∧ c = 48 then none else viewDigits maximum 0 (c :: v)

/-- `UINT32_MAX`. -/
def uint32Max : ℕ := 4294967295

/-- The room for a key. -/
def keyCap : ℕ := 64

/-- `schema_version`. -/
def keySchemaVersion : Bytes := [115,99,104,101,109,97,95,118,101,114,115,105,111,110]

/-- `resources`, `transport`, `protocol` and `id`: a document with one of these is no file of
the older kind. -/
def modernKeys : List Bytes :=
  [[114,101,115,111,117,114,99,101,115],[116,114,97,110,115,112,111,114,116],[112,114,111,116,111,99,111,108],[105,100]]

structure VersionScan where
  seen : Bool
  modern : Bool
  number : ℕ

/-- One member of the object on top. -/
def VersionScan.member (s : VersionScan) (key v : Bytes) : Option VersionScan :=
  if key = keySchemaVersion then
    if s.seen = true then none else (viewNumber uint32Max v).map fun n => { s with seen := true, number := n }
  else some { s with modern := s.modern || modernKeys.contains key }

/-- The loop of `bvstk_device_profile_version`. -/
def versionLoop : (left : ℕ) → VersionScan → Bytes → Option VersionScan
  | 0, _, _ => none
  | _ + 1, s, [] => some s
  | left + 1, s, c :: input =>
    if c = 125 then some s
    else
      match string (some keyCap) (c :: input) with
      | none => none
      | some (key,rest) =>
        let start := ws ((ws rest).drop 1)
        match value (depthMax - 1) start with
        | none => none
        | some rest =>
          match s.member key (start.take (start.length - rest.length)) with
          | none => none
          | some s =>
            match ws rest with
            | [] => versionLoop left s []
            | c :: rest => if c = 44 then versionLoop left s (ws rest) else versionLoop left s (c :: rest)

/-- `bvstk_device_profile_version`; version 0 is the older kind. -/
def profileVersion (json : Bytes) : Except Status ℕ :=
  match document json with
  | none => .error .malformed
  | some root =>
    match versionLoop (root.length + 1) ⟨false,false,0⟩ (ws (root.drop 1)) with
    | none => .error .malformed
    | some s =>
      if s.seen = false ∧ s.modern = true then .error .malformed
      else if s.seen = true ∧ s.number ≠ 2 then .error .unsupported
      else .ok (if s.seen = true then 2 else 0)

/-! ## Documents by their members -/

/-- What the reader writes for the pieces of a name. -/
def keyOf (ps : List Piece) : Bytes := ((string none (stringToken ps)).map Prod.fst).getD []

theorem keyOf_eq {ps : List Piece} {cs : List Char} (hps : Denotes ps cs) (hvalid : ∀ p ∈ ps, p.Valid)
    (hcs : ∀ c ∈ cs, c.toNat ≠ 0) : keyOf ps = utf8 cs := by
  have hstring := string_eq hps hvalid hcs (fits_none _) []
  rw [List.append_nil] at hstring
  rw [keyOf, hstring]
  rfl

/-- A member that the reader takes inside an object that holds `n` more containers. -/
structure MemberOk (n : ℕ) (m : Member) : Prop where
  before : Blank m.before
  middle : Blank m.middle
  ahead : Blank m.element.before
  after : Blank m.element.after
  valid : ∀ p ∈ m.name, p.Valid
  denoting : Denoting m.name
  value : Value Denoting n m.element.value

/-- The object with some members. -/
def objectText (ms : List Member) : Bytes := 123 :: (commas (ms.map Member.text) ++ [125])

theorem value_objectText {n : ℕ} {ms : List Member} (hne : ms ≠ []) (hms : ∀ m ∈ ms, MemberOk n m) :
    Value Denoting (n + 1) (objectText ms) :=
  Value.object hne (fun m hm => ⟨(hms m hm).before,(hms m hm).middle,(hms m hm).ahead,(hms m hm).after⟩)
    (fun m hm => ⟨(hms m hm).valid,(hms m hm).denoting⟩) fun m hm => (hms m hm).value

theorem stops_blank {after : Bytes} (hafter : Blank after) : Stops after := by
  have happend := stops_append hafter stops_nil
  rwa [List.append_nil] at happend

/-- The view of a document is its object. -/
theorem document_objectText {json before after : Bytes} {ms : List Member} (hne : ms ≠ [])
    (hms : ∀ m ∈ ms, MemberOk (depthMax - 1) m) (hbefore : Blank before) (hafter : Blank after)
    (htext : json.takeWhile (· != 0) = before ++ (objectText ms ++ after))
    (hlength : (json.takeWhile (· != 0)).length ≤ profileJsonMax) : document json = some (objectText ms) := by
  have hws : ws (before ++ (objectText ms ++ after)) = objectText ms ++ after := by
    rw [ws_append hbefore, objectText, List.cons_append, ws_cons not_blank_brace]
  have hstart : (objectText ms ++ after).head? = some 123 := rfl
  have hvalue : value depthMax (objectText ms ++ after) = some after :=
    value_eq (value_objectText hne hms) (stops_blank hafter)
  unfold document
  dsimp only
  rw [if_neg (Nat.not_lt_of_le hlength), htext, hws, if_pos hstart, hvalue]
  dsimp only
  rw [if_pos (ws_eq_nil.mpr hafter), List.length_append, Nat.add_sub_cancel, List.take_left]

/-- The loop at one member. -/
theorem versionLoop_member {left : ℕ} {s : VersionScan} {m : Member} (hm : MemberOk (depthMax - 1) m)
    (hkey : (keyOf m.name).length < keyCap) {rest : Bytes} (hrest : Stops rest) :
    versionLoop (left + 1) s (stringToken m.name ++ (m.middle ++ 58 :: (m.element.text ++ rest))) =
      (s.member (keyOf m.name) m.element.value).bind fun s =>
        match ws rest with
        | [] => versionLoop left s []
        | c :: rest => if c = 44 then versionLoop left s (ws rest) else versionLoop left s (c :: rest) := by
  obtain ⟨cs,hdenotes,hcs⟩ := hm.denoting
  have hcolon : ¬IsBlank 58 := by
    unfold IsBlank
    decide
  rw [keyOf_eq hdenotes hm.valid hcs] at hkey ⊢
  have hfits : Fits (some keyCap) (utf8 cs).length := by
    intro size hsize
    cases hsize
    exact hkey
  have hstring := string_eq hdenotes hm.valid hcs hfits (m.middle ++ 58 :: (m.element.text ++ rest))
  have hws : ws (m.middle ++ 58 :: (m.element.text ++ rest)) = 58 :: (m.element.text ++ rest) := by
    rw [ws_append hm.middle, ws_cons hcolon]
  have hstart : ws (m.element.text ++ rest) = m.element.value ++ (m.element.after ++ rest) :=
    ws_element hm.ahead (value_head hm.value) rest
  rw [stringToken, List.cons_append] at hstring ⊢
  rw [versionLoop, if_neg (by decide), hstring]
  dsimp only
  rw [hws, List.drop_one, List.tail_cons, hstart, value_eq hm.value (stops_append hm.after hrest)]
  dsimp only
  rw [List.length_append, Nat.add_sub_cancel, List.take_left, ws_append hm.after]
  cases s.member (utf8 cs) m.element.value <;> rfl

/-- The loop over the members of the object on top. -/
theorem versionLoop_members {ms : List Member} (hne : ms ≠ []) (hms : ∀ m ∈ ms, MemberOk (depthMax - 1) m)
    (hkeys : ∀ m ∈ ms, (keyOf m.name).length < keyCap) (s : VersionScan) {left : ℕ}
    (hleft : (ws (commas (ms.map Member.text) ++ [125])).length < left) :
    versionLoop left s (ws (commas (ms.map Member.text) ++ [125])) =
      ms.foldlM (fun s m => s.member (keyOf m.name) m.element.value) s := by
  induction ms generalizing left s with
  | nil => exact absurd rfl hne
  | cons m ms ih =>
    have hm := hms m List.mem_cons_self
    have hkey := hkeys m List.mem_cons_self
    cases left with
    | zero => cases hleft
    | succ left =>
      cases ms with
      | nil =>
        rw [List.map_singleton, commas_singleton, ws_member hm.before] at hleft ⊢
        have hstops : Stops [125] := stops_closing true []
        have hbrace : ws [125] = [125] := rfl
        rw [versionLoop_member hm hkey hstops, List.foldlM_cons, Option.bind_eq_bind, hbrace]
        congr 1
        funext s
        cases left with
        | zero => simp [stringToken] at hleft
        | succ left => rfl
      | cons m' ms =>
        rw [List.map_cons, List.map_cons, commas_cons, List.append_assoc, List.cons_append, ws_member hm.before] at hleft ⊢
        rw [versionLoop_member hm hkey (stops_comma _), List.foldlM_cons, Option.bind_eq_bind]
        congr 1
        funext s
        rw [ws_cons not_blank_comma, ← List.map_cons]
        dsimp only
        rw [if_pos rfl]
        refine ih (List.cons_ne_nil _ _) (fun m'' h => hms m'' (List.mem_cons_of_mem m h))
          (fun m'' h => hkeys m'' (List.mem_cons_of_mem m h)) s ?_
        have hshorter := List.length_dropWhile_le isWs (commas (Member.text m' :: ms.map Member.text) ++ [125])
        simp only [List.length_append, List.length_cons, List.map_cons, ws] at hleft hshorter ⊢
        omega

/-- Members that are neither a version nor part of a profile of version 2 leave the scan as it is. -/
theorem foldlM_member_plain {ms : List Member}
    (hplain : ∀ m ∈ ms, keyOf m.name ≠ keySchemaVersion ∧ keyOf m.name ∉ modernKeys) (s : VersionScan) :
    ms.foldlM (fun s m => s.member (keyOf m.name) m.element.value) s = some s := by
  induction ms with
  | nil => rfl
  | cons m ms ih =>
    obtain ⟨hversion,hmodern⟩ := hplain m List.mem_cons_self
    have hcontains : modernKeys.contains (keyOf m.name) = false := by simpa using hmodern
    rw [List.foldlM_cons, VersionScan.member, if_neg hversion, hcontains, Bool.or_false]
    exact ih fun m' h => hplain m' (List.mem_cons_of_mem m h)

/-- A document of which no member is a version or part of a profile of version 2 is of the older kind. -/
theorem profileVersion_zero {json : Bytes} (before after : Bytes) {ms : List Member} (hne : ms ≠ [])
    (hms : ∀ m ∈ ms, MemberOk (depthMax - 1) m) (hbefore : Blank before) (hafter : Blank after)
    (htext : json.takeWhile (· != 0) = before ++ (objectText ms ++ after))
    (hlength : (json.takeWhile (· != 0)).length ≤ profileJsonMax)
    (hplain : ∀ m ∈ ms, (keyOf m.name).length < keyCap ∧ keyOf m.name ≠ keySchemaVersion ∧ keyOf m.name ∉ modernKeys) :
    profileVersion json = .ok 0 := by
  have hloop : versionLoop ((objectText ms).length + 1) ⟨false,false,0⟩ (ws ((objectText ms).drop 1)) =
      some ⟨false,false,0⟩ := by
    rw [objectText, List.drop_one, List.tail_cons, versionLoop_members hne hms fun m hm => (hplain m hm).1]
    · exact foldlM_member_plain (fun m hm => (hplain m hm).2) _
    · have hshorter := List.length_dropWhile_le isWs (commas (ms.map Member.text) ++ [125])
      rw [ws, List.length_cons]
      omega
  unfold profileVersion
  rw [document_objectText hne hms hbefore hafter htext hlength]
  dsimp only
  rw [hloop]
  rfl

end Bvstk.Config
