import Bvstk.Fat.CrashRecovery
import Bvstk.Fat.MemoryFat

/-! # Which profiles survive resets

All those that are not named like a register map. Recovery passes over the backup of such a
profile, so a reset between the two renames of a replacement leaves nothing in its place.
-/
namespace Bvstk.Fat
open Bvstk.Fs Bvstk.Config CrashRun

/-- A canonical profile that the store can read, in a directory of profiles. -/
structure StoreReads {σ : Type} (F : FatFs σ) (root : Path) (device : Name) (old : List UInt8) (s : σ) : Prop where
  path : devicePathValid (canonicalProfileName device) = true
  rootDir : ∃ f, F.node s (key root) = some ⟨f,.dir⟩
  bundleDir : ∃ f, F.node s (bundleKey root device) = some ⟨f,.dir⟩
  file : Safe F s (profilePath root device) old
  size : old.length < configBufferSize
  text : 0 ∉ old

/-- A replacement is cut off anywhere, then recoveries are; the first that completes leaves
the old or the new content under the canonical name. -/
def CrashConsistent (root : Path) (device : Name) (old data : List UInt8) : Prop :=
  ∀ (σ : Type) (F : FatFs σ), F.Documented → ∀ s, StoreReads F root device old s →
    ∀ s₁ s₂, Cut F.Reset (writeDeviceFile F (profilePath root device) data (start s)).2 s₁ →
      Restarted F.Reset (fun s => (recoverDeviceConfigs F root (start s)).2) s₁ s₂ →
      (recoverDeviceConfigs F root (start s₂)).1 = true →
      Holds F (recoverDeviceConfigs F root (start s₂)).2.state (profilePath root device) old ∨
        Holds F (recoverDeviceConfigs F root (start s₂)).2.state (profilePath root device) data

theorem crashConsistent_of_not_registerMap {root : Path} {device : Name} {old data : List UInt8} (hroot : Plain root)
    (hmap : isRegisterMap (device ++ jsonExtension) = false) : CrashConsistent root device old data := by
  intro σ F hF s hs s₁ s₂ hcut hrestarted hok
  have hd := (devicePathValid_word hs.path).1
  have hreset : ∀ s t, Recoverable F root device old data s → F.Reset s t → Recoverable F root device old data t :=
    fun s t h ht => h.reset hF ht
  have hwritten := writeDeviceFile_recoverable data hF hd hroot ⟨hs.rootDir,hs.bundleDir,hs.file⟩
  have hs₁ := hcut.of_always hwritten hreset
  have hrun : ∀ s, Recoverable F root device old data s →
      Always (Recoverable F root device old data) (recoverDeviceConfigs F root (start s)).2 :=
    fun s h => (recoverDeviceConfigs_keeps hF hd hroot root (start s)).always (always_start.mpr h)
  have hs₂ := hrestarted.of_always hs₁ hrun hreset
  have hpresent := recoverDeviceConfigs_restores hF hd hroot hs.path hmap (start s₂) (always_start.mpr hs₂) hok
  exact hpresent.imp Safe.holds Safe.holds

/-! ## A disk with one profile -/

/-- The directory of the profiles, in it that of the device, in it some files. -/
def bundleDisk (root : Path) (bus device : Name) (files : List (Name × FatContent)) : Disk where
  objects := files.map (fun f => (bundleKey root device,⟨f.1,f.2⟩)) ++
    [(key root,⟨device,.dir⟩),((key root).dropLast,⟨bus,.dir⟩)]
  faults := []

section
variable {root : Path} {bus device : Name} {files : List (Name × FatContent)} {p : Path} {name : Name} {content : FatContent}

theorem keyOf_file (f : Name × FatContent) :
    (Disk.keyOf (bundleKey root device,⟨f.1,f.2⟩) == bundleKey root device ++ [name.map toLower]) =
      (f.1.map toLower == name.map toLower) := by
  rw [Bool.eq_iff_iff, beq_iff_eq, beq_iff_eq]
  simp [Disk.keyOf]

variable (device name) in
/-- The two directories are not in the directory of the device. -/
theorem keyOf_directory (hroot : key root = (key root).dropLast ++ [bus.map toLower]) :
    Disk.keyOf (key root,⟨device,.dir⟩) ≠ bundleKey root device ++ [name.map toLower] ∧
      Disk.keyOf ((key root).dropLast,⟨bus,.dir⟩) ≠ bundleKey root device ++ [name.map toLower] := by
  have hbus : Disk.keyOf ((key root).dropLast,⟨bus,.dir⟩) = key root := hroot.symm
  constructor
  · exact ne_of_apply_ne List.length (by simp [Disk.keyOf, bundleKey])
  · rw [hbus]
    exact ne_of_apply_ne List.length (by simp [bundleKey])

theorem bundleDisk_node (hroot : key root = (key root).dropLast ++ [bus.map toLower])
    (hp : key p = bundleKey root device ++ [name.map toLower]) :
    (bundleDisk root bus device files).node (key p) =
      (files.find? fun f => f.1.map toLower == name.map toLower && decide (IsName f.1)).map fun f => ⟨f.1,f.2⟩ := by
  obtain ⟨h₁,h₂⟩ := keyOf_directory device name hroot
  rw [hp]
  unfold Disk.node bundleDisk
  dsimp only
  rw [List.find?_append, List.find?_cons_of_neg (by simp [h₁]), List.find?_cons_of_neg (by simp [h₂]), List.find?_nil,
    Option.or_none, List.find?_map, Option.map_map]
  congr 2
  funext f
  rw [Function.comp_apply, keyOf_file]

theorem bundleDisk_remove (hroot : key root = (key root).dropLast ++ [bus.map toLower])
    (hp : key p = bundleKey root device ++ [name.map toLower]) : (bundleDisk root bus device files).remove (key p) =
      bundleDisk root bus device (files.filter fun f => f.1.map toLower != name.map toLower) := by
  obtain ⟨h₁,h₂⟩ := keyOf_directory device name hroot
  rw [hp]
  unfold Disk.remove bundleDisk
  dsimp only
  rw [List.filter_append, List.filter_cons_of_pos (by simp [h₁]), List.filter_cons_of_pos (by simp [h₂]), List.filter_nil,
    List.filter_map]
  congr 4
  funext f
  rw [Function.comp_apply, bne, keyOf_file, bne]

theorem bundleDisk_put (hroot : key root = (key root).dropLast ++ [bus.map toLower])
    (hp : key p = bundleKey root device ++ [name.map toLower]) :
    (bundleDisk root bus device files).put p name content =
      bundleDisk root bus device ((name,content) :: files.filter fun f => f.1.map toLower != name.map toLower) := by
  unfold Disk.put
  rw [bundleDisk_remove hroot hp, hp, List.dropLast_concat]
  rfl

theorem bundleDisk_root (hroot : key root = (key root).dropLast ++ [bus.map toLower]) (hdevice : IsName device) :
    (bundleDisk root bus device files).children (key root) = [⟨device,true⟩] := by
  have hfiles : files.filter ((fun o => o.1 == key root && decide (IsName o.2.fname)) ∘
      fun f : Name × FatContent => (bundleKey root device,(⟨f.1,f.2⟩ : FatNode))) = [] := by
    simp [bundleKey]
  have hparent : (key root).dropLast ≠ key root :=
    ne_of_apply_ne List.length (by rw [hroot]; simp)
  unfold Disk.children bundleDisk
  dsimp only
  rw [List.filter_append, List.filter_map, hfiles, List.filter_cons_of_pos (by simpa using hdevice),
    List.filter_cons_of_neg (by simp [hparent])]
  rfl

theorem bundleDisk_bundle (hroot : key root = (key root).dropLast ++ [bus.map toLower]) :
    (bundleDisk root bus device files).children (bundleKey root device) =
      (files.filter fun f => decide (IsName f.1)).map fun f => ⟨f.1,f.2 == .dir⟩ := by
  have hlong : (key root).dropLast ≠ bundleKey root device :=
    ne_of_apply_ne List.length (by rw [bundleKey, hroot]; simp)
  unfold Disk.children bundleDisk
  dsimp only
  rw [List.filter_append, List.filter_map, List.filter_cons_of_neg (by simp [bundleKey]),
    List.filter_cons_of_neg (by simp [hlong]), List.filter_nil, List.append_nil, List.map_map]
  congr 2
  funext f
  simp

/-! ## A replacement on that disk -/

@[simp] theorem bundleDisk_tick : (bundleDisk root bus device files).tick = bundleDisk root bus device files := rfl
@[simp] theorem bundleDisk_faulty : (bundleDisk root bus device files).faulty = false := rfl

/-- The calls of a replacement, down to where the canonical file is away. -/
theorem writeDeviceFile_calls {path : Path} {canonical tmp backup : Name} (old data : List UInt8)
    (hroot : key root = (key root).dropLast ++ [bus.map toLower]) (hshort : path.length + 4 < devicePathBuffer)
    (hp : key path = bundleKey root device ++ [canonical.map toLower])
    (ht : key (path ++ tmpEnding) = bundleKey root device ++ [tmp.map toLower])
    (hb : key (path ++ bakEnding) = bundleKey root device ++ [backup.map toLower])
    (nc : IsName canonical) (nt : IsName tmp) (nb : IsName backup)
    (hct : canonical.map toLower ≠ tmp.map toLower) (hcb : canonical.map toLower ≠ backup.map toLower)
    (htb : tmp.map toLower ≠ backup.map toLower) (lt : leaf (path ++ tmpEnding) = tmp)
    (lb : leaf (path ++ bakEnding) = backup) :
    bundleDisk root bus device [(backup,.file old true),(tmp,.file data true)] ∈
      (writeDeviceFile memoryFat path data (start (bundleDisk root bus device [(canonical,.file old true)]))).2.states := by
  have hstat : memoryFat.stat (bundleDisk root bus device [(canonical,.file old true)]) path =
      (.ok false,bundleDisk root bus device [(canonical,.file old true)]) := by
    simp [memoryFat, Disk.stat, Disk.look, bundleDisk_node hroot hp, nc]
  have hcreate : memoryFat.create (bundleDisk root bus device [(canonical,.file old true)]) (path ++ tmpEnding) =
      (.ok (),bundleDisk root bus device [(tmp,.file [] false),(canonical,.file old true)]) := by
    simp [memoryFat, Disk.create, bundleDisk_node hroot ht, bundleDisk_put hroot ht, lt, nt, hct]
  have hwrite : memoryFat.write (bundleDisk root bus device [(tmp,.file [] false),(canonical,.file old true)])
      (path ++ tmpEnding) data =
      (.ok data.length,bundleDisk root bus device [(tmp,.file data false),(canonical,.file old true)]) := by
    simp [memoryFat, Disk.write, bundleDisk_node hroot ht, bundleDisk_put hroot ht, nt, hct]
  have hsync : memoryFat.sync (bundleDisk root bus device [(tmp,.file data false),(canonical,.file old true)])
      (path ++ tmpEnding) = (.ok (),bundleDisk root bus device [(tmp,.file data true),(canonical,.file old true)]) := by
    simp [memoryFat, Disk.sync, bundleDisk_node hroot ht, bundleDisk_put hroot ht, nt, hct]
  have hclose : memoryFat.close (bundleDisk root bus device [(tmp,.file data true),(canonical,.file old true)])
      (path ++ tmpEnding) = (.ok (),bundleDisk root bus device [(tmp,.file data true),(canonical,.file old true)]) := by
    simp [memoryFat, Disk.sync, Disk.look, bundleDisk_node hroot ht, nt]
  have hunlink : memoryFat.unlink (bundleDisk root bus device [(tmp,.file data true),(canonical,.file old true)])
      (path ++ bakEnding) =
      (.error .noFile,bundleDisk root bus device [(tmp,.file data true),(canonical,.file old true)]) := by
    simp [memoryFat, Disk.unlink, bundleDisk_node hroot hb, htb, hcb]
  have hrename : memoryFat.rename (bundleDisk root bus device [(tmp,.file data true),(canonical,.file old true)])
      path (path ++ bakEnding) =
      (.ok (),bundleDisk root bus device [(backup,.file old true),(tmp,.file data true)]) := by
    simp [memoryFat, Disk.rename, bundleDisk_node hroot hp, bundleDisk_node hroot hb, bundleDisk_remove hroot hp,
      bundleDisk_put hroot hb, lb, nb, nc, htb, hcb, hct.symm]
  have hlen : ¬(devicePathBuffer ≤ (path ++ tmpEnding).length ∨ devicePathBuffer ≤ (path ++ bakEnding).length) := by
    rw [List.length_append, List.length_append, show tmpEnding.length = 4 from rfl, show bakEnding.length = 4 from rfl]
    omega
  have hkept : ∀ r : Run Disk, r.state ∈
      (installTemporary memoryFat path (path ++ tmpEnding) (path ++ bakEnding) true r).2.states := by
    intro r
    unfold installTemporary
    dsimp only
    split_ifs <;> simp [state_mem]
  unfold writeDeviceFile fileExists
  simp only [if_neg hlen]
  simp only [Run.call, start, hstat, hcreate, hwrite, hsync, hclose, ne_eq, not_true_eq_false, if_false, or_self, if_true,
    decide_true, moveToBackup, hunlink, hrename]
  exact hkept _

/-- The same with the names of a device. -/
theorem writeDeviceFile_backedUp (hroot : key root = (key root).dropLast ++ [bus.map toLower]) (hd : WordName device)
    (hshort : (profilePath root device).length + 4 < devicePathBuffer) (old data : List UInt8) :
    bundleDisk root bus device [(device ++ jsonExtension ++ bakEnding,.file old true),
        (device ++ jsonExtension ++ tmpEnding,.file data true)] ∈
      (writeDeviceFile memoryFat (profilePath root device) data
        (start (bundleDisk root bus device [(device ++ jsonExtension,.file old true)]))).2.states := by
  have hin : ∀ {ending : Name}, (∀ c ∈ ending, isSeparator c = false) →
      IsName (device ++ jsonExtension ++ ending) ∧
      key (profilePath root device ++ ending) = bundleKey root device ++ [(device ++ jsonExtension ++ ending).map toLower] ∧
      leaf (profilePath root device ++ ending) = device ++ jsonExtension ++ ending := by
    intro ending hending
    have hname : IsName (device ++ jsonExtension ++ ending) := by
      rw [List.append_assoc]
      exact hd.isName (json_append_no_separator hending)
    have hpath : profilePath root device ++ ending =
        (root ++ slash :: device) ++ slash :: (device ++ jsonExtension ++ ending) := by
      simp [profilePath]
    exact ⟨hname,by rw [hpath, key_child _ hname, key_child _ hd.name, bundleKey],by rw [hpath, leaf_child _ hname]⟩
  obtain ⟨nt,ht,lt⟩ := hin tmpEnding_isName.2
  obtain ⟨nb,hb,lb⟩ := hin bakEnding_no_separator
  refine writeDeviceFile_calls old data hroot hshort (key_in_bundle hd jsonExtension_no_separator) ht hb (hd.isName jsonExtension_no_separator) nt nb
    ?_ ?_ ?_ lt lb
  · exact ne_of_apply_ne List.length (by simp [tmpEnding])
  · exact ne_of_apply_ne List.length (by simp [bakEnding])
  · simp only [List.map_append, Ne, List.append_cancel_left_eq, List.append_assoc]
    decide

theorem bundleDisk_rootDir (hroot : key root = (key root).dropLast ++ [bus.map toLower]) (hbus : IsName bus) :
    (bundleDisk root bus device files).node (key root) = some ⟨bus,.dir⟩ := by
  have hfiles : files.find? ((fun o => Disk.keyOf o == key root && decide (IsName o.2.fname)) ∘
      fun f : Name × FatContent => (bundleKey root device,(⟨f.1,f.2⟩ : FatNode))) = none := by
    simp [Disk.keyOf, bundleKey]
  have hkey : Disk.keyOf ((key root).dropLast,⟨bus,.dir⟩) = key root := hroot.symm
  unfold Disk.node bundleDisk
  dsimp only
  rw [List.find?_append, List.find?_map, hfiles, List.find?_cons_of_neg (by simp [Disk.keyOf]),
    List.find?_cons_of_pos (by simpa [hkey] using hbus)]
  rfl

theorem bundleDisk_bundleDir (hdevice : IsName device) :
    (bundleDisk root bus device files).node (bundleKey root device) = some ⟨device,.dir⟩ := by
  have hfiles : files.find? ((fun o => Disk.keyOf o == bundleKey root device && decide (IsName o.2.fname)) ∘
      fun f : Name × FatContent => (bundleKey root device,(⟨f.1,f.2⟩ : FatNode))) = none := by
    simp [Disk.keyOf]
  unfold Disk.node bundleDisk
  dsimp only
  rw [List.find?_append, List.find?_map, hfiles, List.find?_cons_of_pos (by simpa [Disk.keyOf, bundleKey] using hdevice)]
  rfl

/-- Recovery passes over the backup of a register map. -/
theorem recoverDeviceConfigs_passesOver (hroot : key root = (key root).dropLast ++ [bus.map toLower]) (hbus : IsName bus)
    (hd : WordName device) (hmap : isRegisterMap (device ++ jsonExtension) = true)
    (hshort : (profilePath root device).length + 4 < devicePathBuffer) (old data : List UInt8) :
    (recoverDeviceConfigs memoryFat root (start (bundleDisk root bus device
        [(device ++ jsonBakEnding,.file old true),(device ++ jsonExtension ++ tmpEnding,.file data true)]))).1 = true ∧
      (recoverDeviceConfigs memoryFat root (start (bundleDisk root bus device
        [(device ++ jsonBakEnding,.file old true),(device ++ jsonExtension ++ tmpEnding,.file data true)]))).2.state =
      bundleDisk root bus device
        [(device ++ jsonBakEnding,.file old true),(device ++ jsonExtension ++ tmpEnding,.file data true)] := by
  have nb : IsName (device ++ jsonBakEnding) := hd.isName jsonBakEnding_no_separator
  have nt : IsName (device ++ jsonExtension ++ tmpEnding) := by
    rw [List.append_assoc]
    exact hd.isName (json_append_no_separator tmpEnding_isName.2)
  generalize hu : bundleDisk root bus device
    [(device ++ jsonBakEnding,.file old true),(device ++ jsonExtension ++ tmpEnding,.file data true)] = u
  have hfaulty : u.faulty = false := by rw [← hu]; rfl
  have htick : u.tick = u := by rw [← hu]; rfl
  have hread : ∀ path, memoryFat.readdir u path = (.ok (),u) := by
    intro path
    simp [memoryFat, Disk.look, hfaulty, htick]
  have hopenRoot : memoryFat.opendir u root = (.ok [⟨device,true⟩],u) := by
    have hnode : u.node (key root) = some ⟨bus,.dir⟩ := by rw [← hu, bundleDisk_rootDir hroot hbus]
    have hchildren : u.children (key root) = [⟨device,true⟩] := by rw [← hu, bundleDisk_root hroot hd.name]
    simp [memoryFat, Disk.opendir, Disk.look, hfaulty, htick, hnode, hchildren]
  have hopenBundle : memoryFat.opendir u (root ++ slash :: device) =
      (.ok [⟨device ++ jsonBakEnding,false⟩,⟨device ++ jsonExtension ++ tmpEnding,false⟩],u) := by
    have hkey : key (root ++ slash :: device) = bundleKey root device := key_child root hd.name
    have hnode : u.node (bundleKey root device) = some ⟨device,.dir⟩ := by rw [← hu, bundleDisk_bundleDir hd.name]
    have hchildren : u.children (bundleKey root device) =
        [⟨device ++ jsonBakEnding,false⟩,⟨device ++ jsonExtension ++ tmpEnding,false⟩] := by
      rw [← hu, bundleDisk_bundle hroot, List.filter_cons_of_pos (by simpa using nb),
        List.filter_cons_of_pos (by simpa using nt)]
      rfl
    simp [memoryFat, Disk.opendir, Disk.look, hfaulty, htick, hkey, hnode, hchildren]
  have hpath : devicePathBuffer > (root ++ slash :: device).length + (device.length + 10) := by
    simp only [profilePath, List.length_append, List.length_cons, show jsonExtension.length = 5 from rfl] at hshort ⊢
    omega
  have hbackup : ∀ r : Run Disk,
      recoverFile memoryFat false (root ++ slash :: device) (device ++ jsonBakEnding) r = (true,r) := by
    intro r
    rw [recoverFile_backup hd, if_neg, if_pos hmap]
    simp only [List.length_append, List.length_cons, show jsonBakEnding.length = 9 from rfl] at hpath ⊢
    omega
  have htmp : ∀ r : Run Disk,
      recoverFile memoryFat false (root ++ slash :: device) (device ++ jsonExtension ++ tmpEnding) r = (true,r) := by
    intro r
    unfold recoverFile
    rw [if_pos (Or.inr ?_)]
    rw [← Bool.not_eq_true]
    intro hends
    have hlen : 10 ≤ (device ++ jsonExtension ++ tmpEnding).length := by
      have := List.length_pos_of_ne_nil hd.1
      simp only [List.length_append, show jsonExtension.length = 5 from rfl, show tmpEnding.length = 4 from rfl]
      omega
    obtain ⟨start,hstart,-⟩ := endsInJsonBak_split hlen hends
    have hlast := congrArg List.getLast? hstart
    rw [List.map_append, show tmpEnding.map toLower = tmpEnding from by decide, getLast?_tmp, getLast?_bak] at hlast
    exact absurd hlast (by decide)
  have hdots : ∀ name : Name, 2 < name.length → name ≠ [46] ∧ name ≠ [46,46] := by
    intro name hlen
    constructor <;> rintro rfl <;> simp at hlen
  have hdb := hdots (device ++ jsonBakEnding) (by simp [jsonBakEnding, jsonExtension, bakEnding])
  have hdt := hdots (device ++ jsonExtension ++ tmpEnding) (by simp [jsonExtension, tmpEnding])
  have hinner : ∀ past, ∃ past', recoverBundle memoryFat (root ++ slash :: device) ⟨u,past⟩ = (true,⟨u,past'⟩) := by
    intro past
    refine ⟨past ++ [u] ++ [u] ++ [u] ++ [u] ++ [u],?_⟩
    unfold recoverBundle recoverLevel
    simp only [Run.call, hopenBundle]
    unfold recoverEntries
    simp only [Run.call, hread, if_neg (not_or.mpr hdb), Bool.false_eq_true, false_and, if_false, hbackup]
    unfold recoverEntries
    simp only [Run.call, hread, if_neg (not_or.mpr hdt), Bool.false_eq_true, false_and, if_false, htmp]
    unfold recoverEntries
    simp only [Run.call, hread]
    rfl
  have hword : device ≠ [46] ∧ device ≠ [46,46] :=
    ⟨fun h => hd.no_dot (by simp [h]),fun h => hd.no_dot (by simp [h])⟩
  have hlong : ¬devicePathBuffer ≤ (root ++ slash :: device).length := by omega
  obtain ⟨past',hpast⟩ := hinner [u,u]
  unfold recoverDeviceConfigs recoverLevel
  simp only [start, Run.call, hopenRoot]
  unfold recoverEntries
  simp only [Run.call, hread, if_neg (not_or.mpr hword), if_neg hlong, and_self, if_true, List.nil_append,
    List.singleton_append, hpast]
  unfold recoverEntries
  simp only [Run.call, hread]
  exact ⟨by trivial,by rfl⟩

end

theorem profileRoot_key (drive : UInt8) (fallback mdio : Bool) : IsName (busDirName mdio) ∧
    key (profileRoot drive fallback mdio) =
      (key (profileRoot drive fallback mdio)).dropLast ++ [(busDirName mdio).map toLower] := by
  have hbus : IsName (busDirName mdio) := by cases mdio <;> decide
  refine ⟨hbus,?_⟩
  rw [profileRoot, key_child _ hbus, List.dropLast_concat]

theorem profileRoot_length (drive : UInt8) (fallback mdio : Bool) : (profileRoot drive fallback mdio).length ≤ 15 := by
  cases fallback <;> cases mdio <;> simp [profileRoot, configDirName, busDirName]

theorem not_crashConsistent_of_registerMap (drive : UInt8) (fallback mdio : Bool) {device : Name} {old data : List UInt8}
    (hpath : devicePathValid (canonicalProfileName device) = true) (hsize : old.length < configBufferSize)
    (htext : 0 ∉ old) (hmap : isRegisterMap (device ++ jsonExtension) = true) :
    ¬CrashConsistent (profileRoot drive fallback mdio) device old data := by
  intro hconsistent
  obtain ⟨hd,-,hlen⟩ := devicePathValid_word hpath
  obtain ⟨hbus,hroot⟩ := profileRoot_key drive fallback mdio
  have hrootLength := profileRoot_length drive fallback mdio
  generalize hr : profileRoot drive fallback mdio = root at *
  have hshort : (profilePath root device).length + 4 < devicePathBuffer := by
    simp only [profilePath, canonicalProfileName, fileNameMax, devicePathBuffer, List.length_append,
      List.length_cons] at hlen ⊢
    omega
  have hp : key (profilePath root device) = bundleKey root device ++ [(device ++ jsonExtension).map toLower] :=
    key_in_bundle hd jsonExtension_no_separator
  have nc : IsName (device ++ jsonExtension) := hd.isName jsonExtension_no_separator
  have hreads : StoreReads memoryFat root device old
      (bundleDisk root (busDirName mdio) device [(device ++ jsonExtension,.file old true)]) :=
    ⟨hpath,⟨_,bundleDisk_rootDir hroot hbus⟩,⟨_,bundleDisk_bundleDir hd.name⟩,
      ⟨device ++ jsonExtension,by simp [memoryFat, bundleDisk_node hroot hp, nc]⟩,hsize,htext⟩
  have haway := writeDeviceFile_backedUp hroot hd hshort old data
  obtain ⟨hok,hstate⟩ := recoverDeviceConfigs_passesOver hroot hbus hd hmap hshort old data
  rw [jsonBakEnding, ← List.append_assoc] at hok hstate
  have hholds := hconsistent Disk memoryFat memoryFat_documented _ hreads _ _
    ⟨_,haway,fun k => Or.inl rfl⟩ .first hok
  rw [hstate] at hholds
  have hct : (device ++ jsonExtension ++ bakEnding).map toLower ≠ (device ++ jsonExtension).map toLower :=
    ne_of_apply_ne List.length (by simp [bakEnding])
  have hcb : (device ++ jsonExtension ++ tmpEnding).map toLower ≠ (device ++ jsonExtension).map toLower :=
    ne_of_apply_ne List.length (by simp [tmpEnding])
  have hgone : memoryFat.node (bundleDisk root (busDirName mdio) device
      [(device ++ jsonExtension ++ bakEnding,.file old true),(device ++ jsonExtension ++ tmpEnding,.file data true)])
      (key (profilePath root device)) = none := by
    rw [show memoryFat.node = Disk.node from rfl, bundleDisk_node hroot hp,
      List.find?_cons_of_neg (by simpa using fun h _ => hct h), List.find?_cons_of_neg (by simpa using fun h _ => hcb h)]
    rfl
  rcases hholds with ⟨f,synced,hf⟩ | ⟨f,synced,hf⟩
  · exact absurd (hgone.symm.trans hf) (by simp)
  · exact absurd (hgone.symm.trans hf) (by simp)

/-- A replacement of a profile survives resets exactly when its file is not taken for a
register map. -/
theorem device_profile_crash_consistent_iff (drive : UInt8) (fallback mdio : Bool) {device : Name} {old : List UInt8}
    (hpath : devicePathValid (canonicalProfileName device) = true) (hsize : old.length < configBufferSize)
    (htext : 0 ∉ old) (data : List UInt8) :
    CrashConsistent (profileRoot drive fallback mdio) device old data ↔ isRegisterMap (device ++ jsonExtension) = false := by
  constructor
  · intro hconsistent
    rw [← Bool.not_eq_true]
    exact fun hmap => not_crashConsistent_of_registerMap drive fallback mdio hpath hsize htext hmap hconsistent
  · exact crashConsistent_of_not_registerMap (plain_profileRoot drive fallback mdio)

/-- The device `a`, with the profile `0:/config/i2c/a/a.json`. -/
theorem device_profile_crash_consistent_iff_sample : devicePathValid (canonicalProfileName [97]) = true ∧
    [(123 : UInt8),125].length < configBufferSize ∧ 0 ∉ [(123 : UInt8),125] ∧
    (CrashConsistent (profileRoot 48 false false) [97] [123,125] [123,32,125] ↔
      isRegisterMap ([97] ++ jsonExtension) = false) :=
  ⟨by decide,by decide,by decide,device_profile_crash_consistent_iff 48 false false (by decide) (by decide) (by decide) _⟩

/-- The device `register_map`. -/
theorem register_map_profile_lost :
    devicePathValid (canonicalProfileName [114,101,103,105,115,116,101,114,95,109,97,112]) = true ∧
      ¬CrashConsistent (profileRoot 48 false false) [114,101,103,105,115,116,101,114,95,109,97,112] [123,125] [123,32,125] :=
  ⟨by decide,not_crashConsistent_of_registerMap 48 false false (by decide) (by decide) (by decide) (by decide)⟩

end Bvstk.Fat
