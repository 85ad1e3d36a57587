import Bvstk.Config.JsonStrings
import Bvstk.Fs.Path
import Bvstk.Library.PathNames
import Bvstk.Library.Utf8Text

/-! # Which paths are accepted

The decoder takes exactly the characters of UTF-8, and a path is accepted if it is a volume with names
below it. What is accepted is left in a form that is its own.
-/
namespace Bvstk.Fs
open JsonText (utf8)
open PathNames (components join)

/-! ## Characters -/

theorem mask_mod (b : UInt8) : (b &&& 31).toNat = b.toNat % 32 ∧ (b &&& 15).toNat = b.toNat % 16 ∧
    (b &&& 7).toNat = b.toNat % 8 ∧ (b &&& 63).toNat = b.toNat % 64 := by
  simp only [UInt8.toNat_and]
  exact ⟨Nat.and_two_pow_sub_one_eq_mod b.toNat 5,Nat.and_two_pow_sub_one_eq_mod b.toNat 4,
    Nat.and_two_pow_sub_one_eq_mod b.toNat 3,Nat.and_two_pow_sub_one_eq_mod b.toNat 6⟩

/-- The two readers of UTF-8 count the first byte in or not. -/
theorem utf8Lead_eq (b : UInt8) :
    utf8Lead b = (Config.leadByte b).map fun (count,bits,minimum) => (count + 1,bits,minimum) := by
  obtain ⟨h5,h4,h3,-⟩ := mask_mod b
  unfold utf8Lead Config.leadByte
  rw [h5,h4,h3]
  split_ifs <;> exact Eq.refl _

theorem utf8Tail_eq (count : ℕ) (data : List UInt8) (value : ℕ) :
    utf8Tail count data value = (Config.continuation count value data).map Prod.fst := by
  induction count generalizing data value with
  | zero => exact Eq.refl _
  | succ count ih =>
    cases data with
    | nil => exact Eq.refl _
    | cons b data =>
      rw [utf8Tail,Config.continuation,(mask_mod b).2.2.2]
      split
      · exact Eq.refl _
      · exact ih _ _

/-- The decoder accepts what begins with a character and says how long it is. -/
theorem utf8Decode_iff (data : List UInt8) (used cp : ℕ) : utf8Decode data = some (used,cp) ↔
    ∃ c : Char, String.utf8EncodeChar c <+: data ∧ used = (String.utf8EncodeChar c).length ∧ cp = c.toNat := by
  constructor
  · intro h
    cases data with
    | nil => cases h
    | cons b data =>
      rw [utf8Decode] at h
      by_cases hb : b < 0x80
      · rw [if_pos hb] at h
        obtain ⟨rfl,rfl⟩ := Prod.mk.inj (Option.some.inj h)
        have hlt : b.toNat < 128 := UInt8.lt_iff_toNat_lt.1 hb
        have hc : (Char.ofNat b.toNat).toNat = b.toNat := Config.toNat_charOfNat (Or.inl (by omega))
        have hencode := Utf8Text.encode_single (hc.trans_lt hlt)
        rw [hc,UInt8.ofNat_toNat] at hencode
        exact ⟨Char.ofNat b.toNat,by rw [hencode]; exact ⟨data,Eq.refl _⟩,by rw [hencode]; exact Eq.refl _,hc.symm⟩
      · rw [if_neg hb,utf8Lead_eq] at h
        cases hlead : Config.leadByte b with
        | none =>
          rw [hlead] at h
          cases h
        | some lead =>
          obtain ⟨count,bits,minimum⟩ := lead
          rw [hlead] at h
          dsimp only [Option.map_some] at h
          rw [Nat.add_sub_cancel,utf8Tail_eq] at h
          cases hmore : Config.continuation count bits data with
          | none =>
            rw [hmore] at h
            cases h
          | some found =>
            obtain ⟨value,rest⟩ := found
            rw [hmore] at h
            dsimp only [Option.map_some] at h
            split at h
            · cases h
            rename_i hrange
            obtain ⟨rfl,rfl⟩ := Prod.mk.inj (Option.some.inj h)
            obtain ⟨tail,rfl,rfl,htail,hvalue⟩ := Config.continuation_some hmore
            have hvalid : value.isValidChar := by
              unfold Nat.isValidChar
              omega
            have hc : (Char.ofNat value).toNat = value := Config.toNat_charOfNat hvalid
            have hencode := Config.encode_of_raw (c := Char.ofNat value) hlead (Eq.refl _) htail (by rw [hc,hvalue])
              (by omega)
            refine ⟨Char.ofNat value,?_,?_,hc.symm⟩
            · rw [hencode]
              exact ⟨rest,Eq.refl _⟩
            · rw [hencode]
              exact Eq.refl _
  · rintro ⟨c,⟨rest,rfl⟩,rfl,rfl⟩
    by_cases hc : c.toNat < 128
    · have hbyte := Utf8Text.toNat_byte (show c.toNat < 256 by omega)
      have hlow : UInt8.ofNat c.toNat < 0x80 := UInt8.lt_iff_toNat_lt.2 (by rw [hbyte]; exact hc)
      rw [Utf8Text.encode_single hc]
      change utf8Decode (UInt8.ofNat c.toNat :: rest) = _
      rw [utf8Decode,if_pos hlow,hbyte]
      exact Eq.refl _
    · obtain ⟨lead,tail,bits,minimum,hencode,hhigh,hlead,htail,hvalue,hminimum⟩ :=
        Config.raw_of_encode (Nat.not_lt.1 hc)
      have hvalid : c.toNat < 0xD800 ∨ (0xDFFF < c.toNat ∧ c.toNat < 0x110000) := c.valid
      have hnot : ¬lead < 0x80 := fun hlt => absurd (UInt8.lt_iff_toNat_lt.1 hlt) (Nat.not_lt.2 hhigh)
      rw [hencode,List.cons_append,utf8Decode,if_neg hnot,utf8Lead_eq,hlead]
      dsimp only [Option.map_some]
      rw [Nat.add_sub_cancel,utf8Tail_eq,Config.continuation_eq bits htail,hvalue]
      exact if_neg (by omega)

/-! ## Components -/

/-- A name in UTF-8 without reserved characters, and not one of the two with a meaning of their own. -/
structure Component (name : Path) : Prop where
  nonempty : name ≠ []
  noDots : name ≠ [46] ∧ name ≠ [46,46]
  characters : ∃ cs, name = utf8 cs ∧ ∀ c ∈ cs, reserved c.toNat = false

theorem charactersValid_iff {left : ℕ} {name : Path} (hleft : name.length ≤ left) : charactersValid left name = true ↔
    ∃ cs, name = utf8 cs ∧ ∀ c ∈ cs, reserved c.toNat = false := by
  induction left generalizing name with
  | zero =>
    obtain rfl := List.length_eq_zero_iff.1 (Nat.le_zero.1 hleft)
    rw [charactersValid]
    exact iff_of_true (Eq.refl _) ⟨[],Eq.refl _,fun _ hc => nomatch hc⟩
  | succ left ih =>
    by_cases hname : name = []
    · rw [hname,charactersValid]
      exact iff_of_true (Eq.refl _) ⟨[],Eq.refl _,fun _ hc => nomatch hc⟩
    have hstep : charactersValid (left + 1) name = true ↔ ∃ used cp, utf8Decode name = some (used,cp) ∧
        reserved cp = false ∧ charactersValid left (name.drop used) = true := by
      obtain ⟨b,data,rfl⟩ := List.exists_cons_of_ne_nil hname
      rw [charactersValid.eq_def]
      dsimp only
      cases utf8Decode (b :: data) with
      | none => simp
      | some found =>
        obtain ⟨used,cp⟩ := found
        simp
    rw [hstep]
    constructor
    · rintro ⟨used,cp,hdecode,hreserved,hrest⟩
      obtain ⟨c,⟨rest,rfl⟩,rfl,rfl⟩ := (utf8Decode_iff _ _ _).1 hdecode
      have hpos : 0 < (String.utf8EncodeChar c).length := String.length_utf8EncodeChar c ▸ c.utf8Size_pos
      rw [List.drop_left,ih (by rw [List.length_append] at hleft; omega)] at hrest
      obtain ⟨cs,rfl,hcs⟩ := hrest
      exact ⟨c :: cs,Eq.refl _,List.forall_mem_cons.2 ⟨hreserved,hcs⟩⟩
    · rintro ⟨cs,rfl,hcs⟩
      cases cs with
      | nil => exact absurd (Eq.refl _) hname
      | cons c cs =>
        obtain ⟨hc,hcs⟩ := List.forall_mem_cons.1 hcs
        have hpos : 0 < (String.utf8EncodeChar c).length := String.length_utf8EncodeChar c ▸ c.utf8Size_pos
        rw [JsonText.utf8_cons] at hleft ⊢
        refine ⟨_,_,(utf8Decode_iff _ _ _).2 ⟨c,⟨utf8 cs,Eq.refl _⟩,Eq.refl _,Eq.refl _⟩,hc,?_⟩
        rw [List.drop_left,ih (by rw [List.length_append] at hleft; omega)]
        exact ⟨cs,Eq.refl _,hcs⟩

theorem validComponent_iff {name : Path} : validComponent name = true ↔ Component name := by
  rw [validComponent,Bool.and_eq_true,decide_eq_true_eq,charactersValid_iff (Nat.le_refl _)]
  exact ⟨fun h => ⟨h.1.1,h.1.2,h.2⟩,fun h => ⟨⟨h.nonempty,h.noDots⟩,h.characters⟩⟩

/-- A byte of ASCII in a text is one of its characters. -/
theorem ascii_mem_utf8 {b : UInt8} (hb : b.toNat < 128) {cs : List Char} (h : b ∈ utf8 cs) : ∃ c ∈ cs, c.toNat = b.toNat := by
  obtain ⟨c,hc,hmem⟩ := List.mem_flatMap.1 h
  refine ⟨c,hc,?_⟩
  by_cases hlow : c.toNat < 128
  · rw [Utf8Text.encode_single hlow,List.mem_singleton] at hmem
    rw [hmem,Utf8Text.toNat_byte (by omega)]
  · exact absurd ((Utf8Text.encode_wide (Nat.not_lt.1 hlow)).2 b hmem) (Nat.not_le.2 hb)

theorem Component.isName {name : Path} (h : Component name) : PathNames.IsName slash name := by
  refine ⟨h.nonempty,fun hmem => ?_⟩
  obtain ⟨cs,rfl,hcs⟩ := h.characters
  obtain ⟨c,hc,hslash⟩ := ascii_mem_utf8 (by decide) hmem
  have hreserved := hcs c hc
  rw [hslash] at hreserved
  exact absurd hreserved (by decide)

/-! ## Components between separators -/

/-- The text of names, with a separator at the end if `trailing` says so. -/
def namesText (names : List Path) (trailing : Bool) : Path :=
  join slash names ++ if trailing = true then [slash] else []

theorem componentsValid_iff {component : Path} (hslash : slash ∉ component) (data : List UInt8) :
    componentsValid component data = true ↔ ∃ front last, components slash (component ++ data) = front ++ [last] ∧
      (∀ name ∈ front, validComponent name = true) ∧ (last = [] ∨ validComponent last = true) := by
  induction data generalizing component with
  | nil =>
    rw [componentsValid,List.append_nil,PathNames.components_single hslash,Bool.or_eq_true,List.isEmpty_iff]
    constructor
    · exact fun h => ⟨[],component,Eq.refl _,List.forall_mem_nil _,h⟩
    · rintro ⟨front,last,hparts,-,hlast⟩
      obtain ⟨-,hsingle⟩ := @List.append_inj' _ [] _ _ _ hparts (Eq.refl _)
      rwa [List.singleton_inj.1 hsingle]
  | cons c data ih =>
    rw [componentsValid]
    by_cases hc : c = slash
    · subst hc
      rw [if_pos (Eq.refl _),Bool.and_eq_true,ih List.not_mem_nil,PathNames.components_append,
        PathNames.components_single hslash,List.nil_append]
      constructor
      · rintro ⟨hfirst,front,last,hparts,hfront,hlast⟩
        exact ⟨component :: front,last,by rw [hparts]; exact Eq.refl _,List.forall_mem_cons.2 ⟨hfirst,hfront⟩,hlast⟩
      · rintro ⟨front,last,hparts,hfront,hlast⟩
        cases front with
        | nil =>
          have hnone := (List.cons.inj hparts).2
          exact absurd hnone (PathNames.components_ne_nil data)
        | cons name front =>
          obtain ⟨rfl,hrest⟩ := List.cons.inj hparts
          obtain ⟨hfirst,hfront⟩ := List.forall_mem_cons.1 hfront
          exact ⟨hfirst,front,last,hrest,hfront,hlast⟩
    · have hnext : slash ∉ component ++ [c] := by
        simp only [List.mem_append,List.mem_singleton,not_or]
        exact ⟨hslash,Ne.symm hc⟩
      rw [if_neg hc,ih hnext,List.append_assoc,List.singleton_append]

theorem join_trailing {names : List Path} (hne : names ≠ []) : join slash (names ++ [[]]) = join slash names ++ [slash] := by
  induction names with
  | nil => exact absurd (Eq.refl _) hne
  | cons name names ih =>
    cases names with
    | nil => exact Eq.refl _
    | cons next names =>
      have hrest : join slash (next :: names ++ [[]]) = join slash (next :: names) ++ [slash] := ih (List.cons_ne_nil _ _)
      calc join slash (name :: (next :: names ++ [[]])) = name ++ slash :: join slash (next :: names ++ [[]]) := Eq.refl _
        _ = name ++ slash :: (join slash (next :: names) ++ [slash]) := by rw [hrest]
        _ = join slash (name :: next :: names) ++ [slash] :=
          (List.append_assoc name (slash :: join slash (next :: names)) [slash]).symm

/-- The loop over the components accepts names with a separator behind them, or none. -/
theorem componentsValid_names (data : List UInt8) : componentsValid [] data = true ↔
    ∃ names trailing, data = namesText names trailing ∧ (∀ name ∈ names, Component name) ∧
      (trailing = true → names ≠ []) := by
  rw [componentsValid_iff List.not_mem_nil,List.nil_append]
  constructor
  · rintro ⟨front,last,hparts,hfront,hlast⟩
    have hdata : data = join slash (front ++ [last]) := by rw [← hparts,PathNames.join_components]
    have hnames : ∀ name ∈ front, Component name := fun name hname => validComponent_iff.1 (hfront name hname)
    rcases hlast with rfl | hlast
    · by_cases hnone : front = []
      · exact ⟨[],false,by rw [hdata,hnone]; exact Eq.refl _,List.forall_mem_nil _,fun h => nomatch h⟩
      · exact ⟨front,true,by rw [hdata,join_trailing hnone]; exact Eq.refl _,hnames,fun _ => hnone⟩
    · refine ⟨front ++ [last],false,by rw [hdata,namesText]; exact (List.append_nil _).symm,?_,fun h => nomatch h⟩
      exact List.forall_mem_append.2 ⟨hnames,List.forall_mem_singleton.2 (validComponent_iff.1 hlast)⟩
  · rintro ⟨names,trailing,rfl,hnames,htrailing⟩
    have hvalid : ∀ name ∈ names, validComponent name = true := fun name hname => validComponent_iff.2 (hnames name hname)
    have hisName : ∀ name ∈ names, PathNames.IsName slash name := fun name hname => (hnames name hname).isName
    by_cases hne : names = []
    · subst hne
      have hfalse : trailing = false := Bool.eq_false_iff.2 fun h => htrailing h (Eq.refl _)
      subst hfalse
      exact ⟨[],[],Eq.refl _,List.forall_mem_nil _,Or.inl (Eq.refl _)⟩
    · cases trailing with
      | true =>
        refine ⟨names,[],?_,hvalid,Or.inl (Eq.refl _)⟩
        change components slash (join slash names ++ slash :: []) = _
        rw [PathNames.components_append,PathNames.components_join hne hisName]
        exact Eq.refl _
      | false =>
        obtain ⟨front,last,rfl⟩ : ∃ front last, names = front ++ [last] :=
          ⟨names.dropLast,names.getLast hne,(List.dropLast_append_getLast hne).symm⟩
        obtain ⟨hfront,hlast⟩ := List.forall_mem_append.1 hvalid
        refine ⟨front,last,?_,hfront,Or.inr (hlast last (List.mem_singleton_self last))⟩
        change components slash (join slash (front ++ [last]) ++ []) = _
        rw [List.append_nil,PathNames.components_join hne hisName]

/-! ## Whole paths -/

/-- `bvstk_fs_validate_path` for an output of `capacity` bytes. Requests have one of `pathCapacity`. -/
def validatePathInto (capacity : ℕ) (data : List UInt8) : Except FsError Path :=
  if data = [] then .error .invalid
  else if capacity ≤ data.length then .error .range
  else validatePath data

/-- One to fifteen characters of a volume's name. -/
structure VolumeName (volume : Path) : Prop where
  length : 1 ≤ volume.length ∧ volume.length ≤ 15
  characters : ∀ c ∈ volume, volumeChar c = true

/-- The path of a volume and names. -/
def pathText (volume : Path) (names : List Path) (trailing : Bool) : Path :=
  volume ++ colon :: slash :: namesText names trailing

/-- A path is a volume and names, with a separator behind them or not. -/
structure PathOf (data volume : Path) (names : List Path) (trailing : Bool) : Prop where
  text : data = pathText volume names trailing
  volumeName : VolumeName volume
  components : ∀ name ∈ names, Component name
  ending : trailing = true → names ≠ []

section Volume
variable {volume : Path} (hvolume : VolumeName volume)
include hvolume

theorem VolumeName.noColon : colon ∉ volume := by
  intro hmem
  exact absurd (hvolume.characters colon hmem) (by decide)

theorem VolumeName.takeWhile (rest : Path) : (volume ++ colon :: rest).takeWhile (· != colon) = volume := by
  have hall : ∀ b ∈ volume, (b != colon) = true := fun b hb => bne_iff_ne.2 fun heq => hvolume.noColon (heq ▸ hb)
  rw [List.takeWhile_append_of_pos hall,List.takeWhile_cons_of_neg (by simp),List.append_nil]

end Volume

theorem join_last {names : List Path} (hnames : ∀ name ∈ names, PathNames.IsName slash name) :
    (join slash names).getLast? ≠ some slash := by
  induction names with
  | nil => exact fun h => nomatch h
  | cons name names ih =>
    obtain ⟨⟨-,hslash⟩,hrest⟩ := List.forall_mem_cons.1 hnames
    cases names with
    | nil => exact fun h => hslash (List.mem_of_getLast? h)
    | cons next names =>
      have hne : join slash (next :: names) ≠ [] := PathNames.join_ne_nil (List.cons_ne_nil _ _) hrest
      rw [join,List.getLast?_append_of_ne_nil _ (List.cons_ne_nil _ _),List.getLast?_cons_of_ne_nil hne]
      · exact ih hrest
      · exact List.cons_ne_nil _ _

/-- A separator at the end of the text is the one behind the names. -/
theorem namesText_last {names : List Path} (hnames : ∀ name ∈ names, Component name) (trailing : Bool) :
    (namesText names trailing).getLast? = some slash ↔ trailing = true := by
  cases trailing with
  | true => simp [namesText]
  | false =>
    have hlast := join_last fun name hname => (hnames name hname).isName
    simp only [namesText,Bool.false_eq_true,if_false,List.append_nil,iff_false]
    exact hlast

/-- The checks in front of the components. -/
theorem validatePath_cut {volume names : Path} (hvolume : VolumeName volume) :
    validatePath (volume ++ colon :: slash :: names) =
      if pathCapacity ≤ (volume ++ colon :: slash :: names).length then .error .range
      else if componentsValid [] names = false then .error .invalid
      else if names.getLast? = some slash then .ok (volume ++ colon :: slash :: names).dropLast
      else .ok (volume ++ colon :: slash :: names) := by
  have hne : volume ++ colon :: slash :: names ≠ [] := List.append_ne_nil_of_right_ne_nil _ (List.cons_ne_nil _ _)
  have hall : volume.all volumeChar = true := List.all_eq_true.2 hvolume.characters
  have hname : ¬(volume.all volumeChar = false ∨ volume = [] ∨ 16 ≤ volume.length) := by
    obtain ⟨hone,hmany⟩ := hvolume.length
    rintro (h | h | h)
    · rw [hall] at h
      cases h
    · exact absurd hone (by rw [h]; decide)
    · omega
  have hdrop : (volume ++ colon :: slash :: names).drop (volume.length + 1) = slash :: names :=
    List.drop_length_add_append 1
  rw [validatePath,if_neg hne,hvolume.takeWhile,if_neg hname,hdrop]
  simp only [ne_eq,not_true_eq_false,false_or]

theorem validatePath_ok {data out : Path} (h : validatePath data = .ok out) :
    ∃ volume names, VolumeName volume ∧ data = volume ++ colon :: slash :: names := by
  rw [validatePath] at h
  split at h
  · cases h
  split at h
  · cases h
  split at h
  · cases h
  rename_i hname
  obtain ⟨hall,hname⟩ := not_or.1 hname
  obtain ⟨hne,hlong⟩ := not_or.1 hname
  have hcut : data = data.takeWhile (· != colon) ++ data.dropWhile (· != colon) :=
    (List.takeWhile_append_dropWhile).symm
  have hdrop : data.drop ((data.takeWhile (· != colon)).length + 1) = (data.dropWhile (· != colon)).drop 1 := by
    have hcount := @List.drop_length_add_append _ (data.takeWhile (· != colon))
      (data.dropWhile (· != colon)) 1
    rwa [← hcut] at hcount
  have hhead := List.head?_dropWhile_not (· != colon) data
  rw [hdrop] at h
  cases hrest : data.dropWhile (· != colon) with
  | nil =>
    rw [hrest] at h
    cases h
  | cons d rest =>
    rw [hrest] at h hhead hcut
    have hd : d = colon := by simpa using hhead
    cases rest with
    | nil => cases h
    | cons c names =>
      change (if c ≠ slash ∨ componentsValid [] names = false then _ else _) = _ at h
      by_cases hc : c = slash
      · refine ⟨_,names,⟨⟨List.length_pos_of_ne_nil hne,by omega⟩,?_⟩,hcut.trans (by rw [hd,hc])⟩
        exact List.all_eq_true.1 (Bool.not_eq_false _ ▸ hall)
      · rw [if_pos (Or.inl hc)] at h
        cases h

theorem pathText_dropLast (volume : Path) (names : List Path) :
    (pathText volume names true).dropLast = pathText volume names false := by
  have htext : pathText volume names true = pathText volume names false ++ [slash] := by simp [pathText,namesText]
  rw [htext,List.dropLast_concat]

/-- What is accepted, and what it becomes. -/
theorem validatePathInto_iff (capacity : ℕ) (data out : Path) : validatePathInto capacity data = .ok out ↔
    data.length < capacity ∧ data.length < pathCapacity ∧ ∃ volume names trailing,
      PathOf data volume names trailing ∧ out = pathText volume names false := by
  constructor
  · intro h
    rw [validatePathInto] at h
    split at h
    · cases h
    split at h
    · cases h
    rename_i hcapacity
    obtain ⟨volume,tail,hvolume,rfl⟩ := validatePath_ok h
    rw [validatePath_cut hvolume] at h
    split at h
    · cases h
    rename_i hpath
    split at h
    · cases h
    rename_i hvalid
    obtain ⟨names,trailing,rfl,hnames,htrailing⟩ := (componentsValid_names tail).1 (Bool.not_eq_false _ ▸ hvalid)
    refine ⟨Nat.not_le.1 hcapacity,Nat.not_le.1 hpath,volume,names,trailing,⟨Eq.refl _,hvolume,hnames,htrailing⟩,?_⟩
    split at h
    · rename_i hlast
      have htrue := (namesText_last hnames trailing).1 hlast
      subst htrue
      rw [← Except.ok.inj h]
      exact pathText_dropLast volume names
    · rename_i hlast
      have hfalse : trailing = false := Bool.eq_false_iff.2 fun ht => hlast ((namesText_last hnames trailing).2 ht)
      subst hfalse
      exact (Except.ok.inj h).symm
  · rintro ⟨hcapacity,hpath,volume,names,trailing,⟨rfl,hvolume,hnames,htrailing⟩,rfl⟩
    have hne : pathText volume names trailing ≠ [] := List.append_ne_nil_of_right_ne_nil _ (List.cons_ne_nil _ _)
    have hvalid : ¬componentsValid [] (namesText names trailing) = false := by
      rw [(componentsValid_names _).2 ⟨names,trailing,Eq.refl _,hnames,htrailing⟩]
      decide
    rw [validatePathInto,if_neg hne,if_neg (Nat.not_le.2 hcapacity),pathText,validatePath_cut hvolume,
      if_neg (Nat.not_le.2 hpath : ¬pathCapacity ≤ (volume ++ colon :: slash :: namesText names trailing).length),
      if_neg hvalid]
    cases trailing with
    | true =>
      rw [if_pos ((namesText_last hnames true).2 (Eq.refl _))]
      exact congrArg Except.ok (pathText_dropLast volume names)
    | false =>
      rw [if_neg fun h => Bool.false_ne_true ((namesText_last hnames false).1 h)]
      exact Eq.refl _

/-- The canonical form is accepted and stays as it is. -/
theorem validatePathInto_again {capacity : ℕ} {data out : Path} (h : validatePathInto capacity data = .ok out) :
    validatePathInto capacity out = .ok out := by
  obtain ⟨hcapacity,hpath,volume,names,trailing,hdata,rfl⟩ := (validatePathInto_iff capacity data out).1 h
  have hlength : (pathText volume names false).length ≤ data.length := by
    rw [hdata.text]
    simp [pathText,namesText]
  rw [validatePathInto_iff]
  exact ⟨hlength.trans_lt hcapacity,hlength.trans_lt hpath,volume,names,false,
    ⟨Eq.refl _,hdata.volumeName,hdata.components,fun h => nomatch h⟩,Eq.refl _⟩

/-- The decoder takes the characters of UTF-8 and nothing else. A path is accepted if it fits and is a
volume with names, then without the separator behind them; once accepted it does not change. -/
theorem path_validation_exact :
    (∀ (data : List UInt8) (used cp : ℕ), utf8Decode data = some (used,cp) ↔
      ∃ c : Char, String.utf8EncodeChar c <+: data ∧ used = (String.utf8EncodeChar c).length ∧ cp = c.toNat) ∧
    (∀ (capacity : ℕ) (data out : Path), validatePathInto capacity data = .ok out ↔
      data.length < capacity ∧ data.length < pathCapacity ∧ ∃ volume names trailing,
        PathOf data volume names trailing ∧ out = pathText volume names false) ∧
    (∀ (capacity : ℕ) (data out : Path), validatePathInto capacity data = .ok out →
      validatePathInto capacity out = .ok out) :=
  ⟨utf8Decode_iff,validatePathInto_iff,fun _ _ _ h => validatePathInto_again h⟩

end Bvstk.Fs
