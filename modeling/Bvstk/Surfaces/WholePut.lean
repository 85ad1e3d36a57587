import Bvstk.Surfaces.LiveConfig
import Bvstk.Web.HttpDecoding
import Mathlib.Data.List.TakeWhile

/-! # Is a configuration request over HTTP applied whole?

A body is read into a buffer, and what does not fit is never read. The handler goes by the
text in the buffer, so a request that was cut may still be accepted without the members behind
the cut. A policy that cannot be read as a word is passed over.
-/
namespace Bvstk.Web
open Http

/-! ## Reading the body -/

/-- The loop of `read_body_to_buf`, with room for so many bytes. -/
def readBodyLoop (b : Body) (s : Socket) (room : ℕ) : Option (List UInt8) × Body × Socket :=
  if room = 0 then (some [],b,s)
  else match httpBodyRead b room s with
    | (none,b',s') => (none,b',s')
    | (some [],b',s') => (some [],b',s')
    | (some (c :: bytes),b',s') =>
      let rest := readBodyLoop b' s' (room - (bytes.length + 1))
      (rest.1.map (c :: bytes ++ ·),rest.2)
  termination_by room

/-- `read_body_to_buf`: the bytes in the buffer, if no read fails. -/
def readBodyToBuf (b : Body) (s : Socket) (size : ℕ) : Option (List UInt8) × Body × Socket :=
  if size < 2 then (none,b,s) else readBodyLoop b s (size - 1)

section
variable {b : Body} {s : Socket} {wire body rest : List UInt8}

theorem readChunkData_le {len : ℕ} {bytes : List UInt8} (h : (readChunkData b len s).1 = some bytes) : bytes.length ≤ len := by
  unfold readChunkData at h
  cases hread : socketRead s (min b.chunkRemaining len) with
  | mk result s₁ =>
  rw [hread] at h
  cases result with
  | none => cases h
  | some first =>
    have hle := (socketRead_some hread).2.1
    dsimp only at h
    split at h
    · cases h
      omega
    · split at h
      · cases h
      · split at h
        · cases h
        · cases h
          omega

/-- No more is read than was asked for. -/
theorem httpBodyRead_le {len : ℕ} {bytes : List UInt8} (h : (httpBodyRead b len s).1 = some bytes) : bytes.length ≤ len := by
  unfold httpBodyRead at h
  split at h
  · cases h
  split at h
  · split at h
    · cases h
      exact Nat.zero_le len
    cases hread : socketRead s (min b.remaining len) with
    | mk result s₁ =>
    rw [hread] at h
    cases result with
    | none => cases h
    | some first =>
      cases h
      have hle := (socketRead_some hread).2.1
      omega
  split at h
  · cases h
    exact Nat.zero_le len
  split at h
  · split at h
    · cases h
    split at h
    · cases h
    · split at h
      · cases h
      · cases h
        exact Nat.zero_le len
    · exact readChunkData_le h
  · exact readChunkData_le h

/-- As much of a body is read as there is room for, in whatever fragments it comes. -/
theorem readBodyLoop_framed (room : ℕ) (h : Ahead b wire body) (hleft : s.left = wire ++ rest) :
    (readBodyLoop b s room).1 = some (body.take room) := by
  induction room using Nat.strong_induction_on generalizing b s wire body with
  | _ room ih =>
    rw [readBodyLoop]
    split
    · rename_i hzero
      rw [hzero, List.take_zero]
    rename_i hroom
    obtain ⟨bytes,wire',body',hres,rfl,hs',hahead,hend⟩ := httpBodyRead_brings (Nat.pos_of_ne_zero hroom) h hleft
    have hle := httpBodyRead_le hres
    generalize httpBodyRead b room s = out at hres hs' hahead
    obtain ⟨result,b',s'⟩ := out
    dsimp only at hres hs' hahead
    subst hres
    cases bytes with
    | nil =>
      obtain ⟨-,rfl⟩ := hend rfl
      exact congrArg some (List.take_nil).symm
    | cons c bytes =>
      rw [List.length_cons] at hle
      dsimp only
      rw [ih (room - (bytes.length + 1)) (by omega) hahead hs', List.take_append, List.length_cons,
        List.take_of_length_le (l := c :: bytes) hle]
      exact Eq.refl _

theorem readBodyToBuf_framed {size : ℕ} (hsize : 2 ≤ size) (h : Ahead b wire body) (hleft : s.left = wire ++ rest) :
    (readBodyToBuf b s size).1 = some (body.take (size - 1)) := by
  unfold readBodyToBuf
  rw [if_neg (Nat.not_lt.mpr hsize)]
  exact readBodyLoop_framed (size - 1) h hleft

end

end Bvstk.Web

namespace Bvstk.Surfaces
open Config I2c Console Web Http RuleSets

variable {ε : Type}

def putBufferSize : ℕ := 2048

/-- `api_handle_i2c_put` with the body on its connection. -/
def handleI2cPut (x : Runtime ε) (b : Body) (s : Socket) : PutReply × Runtime ε :=
  match (readBodyToBuf b s putBufferSize).1 with
  | none => (.emptyBody,x)
  | some buffer => httpI2cPut x buffer

/-! ## What a body asks for -/

/-- The text of a whole body; a NUL ends it. -/
def wholeText (body : List UInt8) : Text := body.takeWhile (· != 0)

/-- The policy in a text is given as a word, or not at all. -/
def PolicyGiven (text : Text) : Prop :=
  jsonFindKey text keyPolicy = none ∨ ∃ word, jsonGetStringVal text keyPolicy 16 = some word ∧ word ≠ []

def NamesMode (word : Text) : PolicyMode → Prop
  | .whitelist => sameIgnoringCase word keyWhitelist = true
  | .blacklist => sameIgnoringCase word keyBlacklist = true

/-- What a text asks for, over a stored configuration: its members, and the old values where it has none. -/
structure Given (text : Text) (current next : I2cFileConfig) : Prop where
  policy : (jsonFindKey text keyPolicy = none ∧ next.policy = current.policy) ∨
    ∃ word mode, jsonGetStringVal text keyPolicy 16 = some word ∧ NamesMode word mode ∧ next.policy = mode.code
  whitelist : jsonFindKey text keyWhitelist = none ∧ next.whitelist = current.whitelist ∨
    jsonParseRulesArray text keyWhitelist = some next.whitelist
  blacklist : jsonFindKey text keyBlacklist = none ∧ next.blacklist = current.blacklist ∨
    jsonParseRulesArray text keyBlacklist = some next.blacklist

/-- The policy of a configuration is that of the store and of the service. -/
structure InForce (x : Runtime ε) (i : ℕ) (next : I2cFileConfig) : Prop where
  stored : ∃ c, x.store[i]? = some c ∧ c.policy = next.policy ∧ c.whitelist = next.whitelist ∧ c.blacklist = next.blacklist
  live : ∃ entry : I2cPolicyEntry, x.world.state.policy.items[i]? = some entry ∧ entry.mode.code = next.policy ∧
    entry.whitelist = next.whitelist ∧ entry.blacklist = next.blacklist

/-- A request is applied whole, or it is refused and changes nothing. -/
structure PutWhole (x : Runtime ε) (body : List UInt8) (out : PutReply × Runtime ε) : Prop where
  applied : out.1 = .ok → body.length < putBufferSize ∧ ∃ i current next name,
    jsonGetStringVal (wholeText body) keyName i2cNameMax = some name ∧ configStoreFindByName x.store name = some i ∧
      x.store[i]? = some current ∧ Given (wholeText body) current next ∧ InForce out.2 i next
  refused : out.1 ≠ .ok → out.2 = x

/-- If what is in the buffer can be read, it is the whole body and the policy is not passed over. -/
def FitsAndGiven (store : ConfigStore) (body : List UInt8) : Prop :=
  ∀ i current, PutReadable store body i current → body.length < putBufferSize ∧ PolicyGiven (wholeText body)

theorem bodyText_eq_wholeText {body : List UInt8} (h : body.length < putBufferSize) : bodyText body = wholeText body := by
  have hfits : body.length ≤ 2047 := Nat.le_pred_of_lt h
  rw [bodyText, List.take_of_length_le hfits]
  exact Eq.refl _

theorem bodyText_take (body : List UInt8) : bodyText (body.take 2047) = bodyText body := by
  rw [bodyText, List.take_take, Nat.min_self]
  exact Eq.refl _

section
variable {store : ConfigStore} {body : List UInt8} {i : ℕ} {current next : I2cFileConfig}

theorem putConfig_error {text : Text} {reply : PutReply} (h : putConfig text current = .error reply) : reply ≠ .ok := by
  have hrules : ∀ {key old bad}, putRules text key old bad = .error reply → reply = bad := by
    intro key old bad hbad
    unfold putRules at hbad
    split at hbad
    · cases hbad
    · split at hbad
      · exact (Except.error.inj hbad).symm
      · cases hbad
  unfold putConfig at h
  split at h
  · rename_i hpolicy
    cases h
    unfold putPolicy at hpolicy
    split at hpolicy
    · cases hpolicy
    · split_ifs at hpolicy
      cases hpolicy
      exact nofun
  · split at h
    · rename_i hwhite
      cases h
      rw [hrules hwhite]
      exact nofun
    · split at h
      · rename_i hblack
        cases h
        rw [hrules hblack]
        exact nofun
      · cases h

/-- A body that is refused is not answered with success. -/
theorem apiHandleI2cPut_error {reply : PutReply} (h : apiHandleI2cPut store body = .error reply) : reply ≠ .ok := by
  unfold apiHandleI2cPut at h
  split at h
  · cases h
    exact nofun
  · split at h
    · cases h
      exact nofun
    · split at h
      · cases h
        exact nofun
      · split at h
        · cases h
          exact nofun
        · exact putConfig_error h

theorem putPolicy_gives {text : Text} {old policy : ℕ} (h : putPolicy text old = .ok policy) (hgiven : PolicyGiven text) :
    (jsonFindKey text keyPolicy = none ∧ policy = old) ∨
      ∃ word mode, jsonGetStringVal text keyPolicy 16 = some word ∧ NamesMode word mode ∧ policy = mode.code := by
  unfold putPolicy at h
  rcases hgiven with hnone | ⟨word,hword,hne⟩
  · have hstring : jsonGetStringVal text keyPolicy 16 = none := by
      unfold jsonGetStringVal
      rw [hnone]
    rw [hstring] at h
    exact Or.inl ⟨hnone,(Except.ok.inj h).symm⟩
  · rw [hword] at h
    dsimp only at h
    rw [if_neg hne] at h
    right
    split_ifs at h with hwhite hblack
    · exact ⟨word,.whitelist,hword,hwhite,(Except.ok.inj h).symm⟩
    · exact ⟨word,.blacklist,hword,hblack,(Except.ok.inj h).symm⟩

/-- What is accepted is what the text asks for. -/
theorem putConfig_given {text : Text} (h : putConfig text current = .ok next) (hgiven : PolicyGiven text) :
    Given text current next := by
  unfold putConfig at h
  split at h
  · cases h
  rename_i policy hpolicy
  split at h
  · cases h
  rename_i whitelist hwhite
  split at h
  · cases h
  rename_i blacklist hblack
  cases h
  exact ⟨putPolicy_gives hpolicy hgiven,putRules_from hwhite,putRules_from hblack⟩

theorem Given.policyGiven {text : Text} (h : Given text current next) : PolicyGiven text := by
  rcases h.policy with ⟨hnone,-⟩ | ⟨word,mode,hword,hnames,-⟩
  · exact Or.inl hnone
  · refine Or.inr ⟨word,hword,?_⟩
    rintro rfl
    cases mode with
    | whitelist => exact absurd hnames (show ¬sameIgnoringCase [] keyWhitelist = true by decide)
    | blacklist => exact absurd hnames (show ¬sameIgnoringCase [] keyBlacklist = true by decide)

theorem apiHandleI2cPut_readable (h : PutReadable store body i current) (hput : apiHandleI2cPut store body = .ok next) :
    putConfig (bodyText body) current = .ok next := by
  obtain ⟨name,hname,hfind⟩ := h.device
  unfold apiHandleI2cPut at hput
  rw [hname] at hput
  dsimp only at hput
  rw [hfind, Option.bind_some, h.entry] at hput
  split at hput
  · cases hput
  · split at hput
    · cases hput
    · exact hput

end

theorem code_of_ofCode {code : ℕ} {mode : PolicyMode} (h : PolicyMode.ofCode code = some mode) : mode.code = code := by
  unfold PolicyMode.ofCode at h
  split at h
  · cases h
    exact Eq.refl _
  · cases h
    exact Eq.refl _
  · cases h

/-! ## The handler -/

section
variable {x : Runtime ε} {body : List UInt8} {i : ℕ} {current : I2cFileConfig}

/-- What can be read is applied, and is in force then. -/
theorem httpI2cPut_done (hx : Paired x) (hread : PutReadable x.store body i current) :
    ∃ next, putConfig (bodyText body) current = .ok next ∧ (httpI2cPut x body).1 = .ok ∧ InForce (httpI2cPut x body).2 i next := by
  obtain ⟨next,hput,htakes⟩ := apiHandleI2cPut_done hx.stored hread
  obtain ⟨hname,-⟩ := Prod.mk.inj htakes.storedShape_eq
  have hshaped := htakes.shaped (hx.shapedAt hread.entry)
  obtain ⟨w,entry,happlied,hentry,-,hentries⟩ := runtimeApply_done hx hread.entry hname hshaped
  refine ⟨next,apiHandleI2cPut_readable hread hput,?_⟩
  unfold httpI2cPut
  rw [hput]
  dsimp only
  rw [applyConfig_applied hx hread.entry hname happlied]
  refine ⟨rfl,⟨replaced next current,?_,rfl,rfl,rfl⟩,entry,?_,?_⟩
  · rw [List.getElem?_modify_eq, hread.entry]
    exact Eq.refl _
  · obtain ⟨device,hdevice,-⟩ := hx.deviceAt hread.entry
    rw [hentries]
    refine List.getElem?_set_self ?_
    rw [x.world.state.policySize]
    exact (List.getElem?_eq_some_iff.mp hdevice).1
  · unfold policyEntryOf at hentry
    split at hentry
    · cases hentry
    · rename_i mode hmode
      split at hentry
      · cases hentry
      · cases hentry
        exact ⟨code_of_ofCode hmode,rfl,rfl⟩

/-- What cannot be read changes nothing. -/
theorem httpI2cPut_refused (hx : Paired x) (hno : ∀ i current, ¬PutReadable x.store body i current) :
    (httpI2cPut x body).1 ≠ .ok ∧ (httpI2cPut x body).2 = x := by
  unfold httpI2cPut
  cases hput : apiHandleI2cPut x.store body with
  | error reply => exact ⟨apiHandleI2cPut_error hput,rfl⟩
  | ok next =>
    obtain ⟨i,current,hread,-⟩ := apiHandleI2cPut_ok hx.stored hput
    exact absurd hread (hno i current)

theorem putWhole_iff (hx : Paired x) : PutWhole x body (httpI2cPut x body) ↔ FitsAndGiven x.store body := by
  constructor
  · intro hwhole i current hread
    obtain ⟨next,hput,hok,-⟩ := httpI2cPut_done hx hread
    obtain ⟨hfits,_,_,_,_,-,-,-,hgiven,-⟩ := hwhole.applied hok
    exact ⟨hfits,hgiven.policyGiven⟩
  · intro hfits
    by_cases hread : ∃ i current, PutReadable x.store body i current
    · obtain ⟨i,current,hread⟩ := hread
      obtain ⟨hshort,hgiven⟩ := hfits i current hread
      obtain ⟨next,hput,hok,hforce⟩ := httpI2cPut_done hx hread
      obtain ⟨name,hname,hfind⟩ := hread.device
      rw [bodyText_eq_wholeText hshort] at hput hname
      exact ⟨fun _ => ⟨hshort,i,current,next,name,hname,hfind,hread.entry,putConfig_given hput hgiven,hforce⟩,
        fun h => absurd hok h⟩
    · have hno : ∀ i current, ¬PutReadable x.store body i current := fun i current h => hread ⟨i,current,h⟩
      obtain ⟨hnot,hsame⟩ := httpI2cPut_refused hx hno
      exact ⟨fun hok => absurd hok hnot,fun _ => hsame⟩

/-- Nothing but the bytes in the buffer counts. -/
theorem httpI2cPut_take (x : Runtime ε) (body : List UInt8) : httpI2cPut x (body.take (putBufferSize - 1)) = httpI2cPut x body := by
  have hput : apiHandleI2cPut x.store (body.take (putBufferSize - 1)) = apiHandleI2cPut x.store body := by
    unfold apiHandleI2cPut
    have htext : bodyText (body.take (putBufferSize - 1)) = bodyText body := bodyText_take body
    have hnil : body.take (putBufferSize - 1) = [] ↔ body = [] := by
      rw [List.take_eq_nil_iff]
      exact or_iff_right (by decide)
    rw [htext]
    simp only [hnil]
  unfold httpI2cPut
  rw [hput]

theorem handleI2cPut_framed {req : HttpRequest} {s : Socket} {frame rest : List UInt8} (hleft : s.left = frame ++ rest)
    (hframed : Framed req frame body) : handleI2cPut x req.body s = httpI2cPut x body := by
  unfold handleI2cPut
  rw [readBodyToBuf_framed (by decide) hframed.ahead hleft]
  exact httpI2cPut_take x body

end

/-! ## The pair of service and store -/

section
variable {x : Runtime ε} {body : List UInt8}

/-- Any request over HTTP keeps the service and the store paired. -/
theorem httpI2cPut_paired (hx : Paired x) : Paired (httpI2cPut x body).2 := by
  by_cases hread : ∃ i current, PutReadable x.store body i current
  case neg =>
    have hno : ∀ i current, ¬PutReadable x.store body i current := fun i current h => hread ⟨i,current,h⟩
    rw [(httpI2cPut_refused hx hno).2]
    exact hx
  obtain ⟨i,current,hread⟩ := hread
  obtain ⟨next,hput,htakes⟩ := apiHandleI2cPut_done hx.stored hread
  obtain ⟨hname,-⟩ := Prod.mk.inj htakes.storedShape_eq
  have hshaped := htakes.shaped (hx.shapedAt hread.entry)
  obtain ⟨w,entry,happlied,-,hitems,-⟩ := runtimeApply_done hx hread.entry hname hshaped
  unfold httpI2cPut
  rw [hput]
  dsimp only
  rw [applyConfig_applied hx hread.entry hname happlied]
  refine ⟨?_,?_,?_⟩
  · rw [names_modify hread.entry hname]
    exact hx.names
  · obtain ⟨device,hdevice,hsame⟩ := hx.deviceAt hread.entry
    have hcut : next.name.take (i2cNameMax - 1) = next.name := List.take_of_length_le (Nat.le_pred_of_lt hshaped.2.1)
    have hlive : liveShape (deviceOf next.toI2cDeviceConfig) = storedShape next := by
      simp only [liveShape, storedShape, deviceOf, hcut]
    have hstore : (x.store.modify i (replaced next)).map storedShape = x.store.map storedShape :=
      map_modify_of_same fun old hold => by
        obtain rfl := Option.some.inj (hread.entry.symm.trans hold)
        exact htakes.storedShape_eq
    dsimp only
    rw [hstore, ← hx.shape, hitems]
    exact map_set_of_same hdevice (hlive.trans (htakes.storedShape_eq.trans hsame.symm))
  · intro c hc
    rcases mem_modify hc with hc | ⟨old,rfl⟩
    · exact hx.stored c hc
    · exact hshaped

end

/-- `{"name":"a"`, blanks, and `,"blacklist":[{"reg":1,"val":2}]}`. -/
def longBody : List UInt8 :=
  [123,34,110,97,109,101,34,58,34,97,34] ++ List.replicate 2036 32 ++
    [44,34,98,108,97,99,107,108,105,115,116,34,58,91,123,34,114,101,103,34,58,49,44,34,118,97,108,34,58,50,125,93,125]

/-- What of it is in the buffer. -/
def longStart : Text := [123,34,110,97,109,101,34,58,34,97,34] ++ List.replicate 2036 32

theorem longBody_long : ¬longBody.length < putBufferSize := by
  unfold longBody
  rw [List.length_append, List.length_append, List.length_replicate]
  decide

theorem longBody_text : bodyText longBody = longStart := by
  have hlength : longStart.length = 2047 := by
    unfold longStart
    rw [List.length_append, List.length_replicate]
    exact Eq.refl _
  have htake : longBody.take 2047 = longStart := List.take_left' hlength
  rw [bodyText, htake, List.takeWhile_eq_self_iff]
  have hfirst : ([123,34,110,97,109,101,34,58,34,97,34] : Text).all (· != 0) = true := by decide
  intro c hc
  unfold longStart at hc
  rcases List.mem_append.mp hc with hc | hc
  · exact List.all_eq_true.mp hfirst c hc
  · rw [List.eq_of_mem_replicate hc]
    exact Eq.refl _

theorem longBody_readable : PutReadable [warmConfig []] longBody 0 (warmConfig []) := by
  have hname : jsonGetStringVal longStart keyName i2cNameMax = some [97] := by decide +kernel
  have hpolicy : jsonGetStringVal longStart keyPolicy 16 = none := by decide +kernel
  have hwhite : jsonFindKey longStart keyWhitelist = none := by decide +kernel
  have hblack : jsonFindKey longStart keyBlacklist = none := by decide +kernel
  rw [← longBody_text] at hname hpolicy hwhite hblack
  refine ⟨⟨[97],hname,by decide⟩,rfl,fun policy h => ?_,fun h => absurd hwhite h,fun h => absurd hblack h⟩
  rw [hpolicy] at h
  cases h

theorem warmConfig_paired : ∃ x, initializeI2c stillPlatform [warmConfig []] () = some x ∧ Paired x ∧ x.store = [warmConfig []] := by
  obtain ⟨x,hstart⟩ := warmConfig_started
  exact ⟨x,hstart,(initializeI2c_linked warmConfig_store.1 warmConfig_store.2 hstart).paired,(initializeI2c_parts hstart).1⟩

end Bvstk.Surfaces
