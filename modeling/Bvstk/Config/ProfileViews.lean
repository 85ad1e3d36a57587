import Bvstk.Config.NumberReaders
import Bvstk.Library.JsonTree

/-! # Views of a profile

`bvstk_device_profile.c` takes a profile apart by views: the values of an object's members by
their keys, the elements of an array one after the other. A view without a value is `none`.
-/
namespace Bvstk.Config.Profile
open JsonText (Blank IsBlank Element Member Piece Tree Means Names Value commas stringToken utf8)

/-- A view that may have no value. -/
abbrev View := Option Bytes

/-! ## Scalars -/

/-- `text`, into a buffer of `cap` bytes. -/
def text (cap : ℕ) (v : View) : Option Name := v.bind (Config.text cap)

/-- `equal`. -/
def equal (v : View) (s : String) : Bool := text 64 v == some (I2cJson.text s)

/-- `number`. -/
def number (max : UInt32) (v : View) : Option ℕ := (v.bind (Config.number · max)).map UInt32.toNat

/-- `hex`. -/
def hex (max : UInt32) (v : View) : Option ℕ := (v.bind (Config.hex · max)).map UInt32.toNat

/-- `boolean`. -/
def boolean (v : View) : Option Bool :=
  if v = some wordTrue then some true else if v = some wordFalse then some false else none

/-! ## Objects -/

/-- The views of an object's members by their keys. -/
abbrev Views := String → View

def noViews : Views := fun _ => none

/-- The loop of `fields`, which takes a member each time. -/
def fieldsLoop (keys : List String) : (left : ℕ) → Views → Bytes → Option Views
  | 0, _, _ => none
  | left + 1, out, p =>
    match string (some keyCap) p with
    | none => none
    | some (key,p) =>
      match keys.find? (I2cJson.text · = key) with
      | none => none
      | some k =>
        if (out k).isSome = true then none
        else
          match ws p with
          | [] => none
          | c :: p =>
            if c ≠ 58 then none
            else
              match value (depthMax - 1) (ws p) with
              | none => none
              | some rest =>
                match ws rest with
                | [] => none
                | c :: p' =>
                  let out := Function.update out k (some ((ws p).take ((ws p).length - rest.length)))
                  if c = 125 then if p' = [] then some out else none
                  else if c = 44 then fieldsLoop keys left out (ws p')
                  else none

/-- `fields`: the members of an object whose keys are all in the table. -/
def fields (keys : List String) (object : View) : Option Views :=
  match object with
  | none => none
  | some [] => none
  | some (c :: p) =>
    if c ≠ 123 then none
    else if (ws p).head? = some 125 then if (ws p).drop 1 = [] then some noViews else none
    else fieldsLoop keys (p.length + 1) noViews (ws p)

/-! ## Arrays -/

/-- What `item` reports: -1, 0, or 1 with the view of an element and the cursor behind it. -/
inductive Item where
  | invalid | done | found (entry cursor : Bytes)

/-- The part of `item` behind the bracket or the comma. -/
def itemAt (p : Bytes) : Item :=
  match ws p with
  | [] => .invalid
  | c :: p =>
    if c = 93 then if p = [] then .done else .invalid
    else
      match value (depthMax - 1) (c :: p) with
      | none => .invalid
      | some rest => .found ((c :: p).take ((c :: p).length - rest.length)) rest

/-- `item`; the cursor is `none` in front of the first element. -/
def item (array : View) (cursor : View) : Item :=
  match array with
  | none => .done
  | some array =>
    match cursor with
    | none => if array.head? = some 91 then itemAt (array.drop 1) else .invalid
    | some p =>
      if (ws p).head? = some 44 then itemAt ((ws p).drop 1)
      else if (ws p).head? = some 93 then itemAt (ws p)
      else .invalid

/-- A loop `while ((next = item(array, &cursor, &entry)) == 1)` whose body is `step`; an array
that is not valid is malformed. -/
def itemsLoop {σ : Type} (step : σ → Bytes → Except Status σ) (array : View) : (left : ℕ) → σ → View → Except Status σ
  | 0, _, _ => .error .malformed
  | left + 1, s, cursor =>
    match item array cursor with
    | .invalid => .error .malformed
    | .done => .ok s
    | .found entry cursor => (step s entry).bind fun s => itemsLoop step array left s (some cursor)

/-- Such a loop from the start; it takes a byte of the array at least each time. -/
def items {σ : Type} (step : σ → Bytes → Except Status σ) (array : View) (s : σ) : Except Status σ :=
  itemsLoop step array ((array.getD []).length + 1) s none

/-- `empty_array`. -/
def emptyArray (v : View) : Bool :=
  match item v none with
  | .done => true
  | _ => false

end Bvstk.Config.Profile
