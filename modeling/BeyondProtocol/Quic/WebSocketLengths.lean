import BeyondProtocol.Quic.WebSocketRead

/-!
# How many bytes of a frame are still to come

The length a header announces has 64 bits; the reader counts down in an `int`, and takes
the size of what it has to read as an `int32_t`. From the call of `Buffer` that accepts a
header on, any calls of `Buffer` and `Next` follow until the announced payload has been
delivered.
-/

namespace BeyondProtocol.Quic

open Framework

/-! ## §1  The run of a frame -/

/-- The next call of `Buffer` gets a header out of the chunk, joined with the bytes stored
before. -/
structure Accepts (r : WebsocketRead) (h : WebSocketHeader) : Prop where
  noError : r.error = false
  between : r.payloadRemaining = 0
  data : r.buffer ≠ []
  parsed : ∃ r₁, r.joinHeader = .ok r₁ ∧
    wsParseHeader (if r.wsHeader.length > 0 then r₁.wsHeader else r₁.buffer) = .ok (.ok h)

/-- The number of payload bytes a call delivers. -/
def spanSize : Except Fault (WebsocketRead × List UInt8) → Nat
  | .ok (_, out) => out.length
  | .error _ => 0

/-- What the calls come to that can follow one another while the payload is delivered, the
first of them the one that accepts the header: the last result, the number of payload bytes
delivered by then, and the chunks still to come. -/
inductive Calls (total : Nat) (r : WebsocketRead) (chunks : List (List UInt8)) :
    Except Fault (WebsocketRead × List UInt8) → Nat → List (List UInt8) → Prop
  | header : Calls total r chunks r.getBuffer (spanSize r.getBuffer) chunks
  | buffer {r' : WebsocketRead} {out : List UInt8} {n : Nat} {rest : List (List UInt8)}
      (h : Calls total r chunks (.ok (r', out)) n rest) (hopen : r'.error = false)
      (hmore : n < total) : Calls total r chunks r'.getBuffer (n + spanSize r'.getBuffer) rest
  | next {r' : WebsocketRead} {out : List UInt8} {n : Nat} {chunk : List UInt8}
      {rest : List (List UInt8)} (h : Calls total r chunks (.ok (r', out)) n (chunk :: rest))
      (hopen : r'.error = false) (hmore : n < total) :
      Calls total r chunks (r'.next chunk >>= WebsocketRead.getBuffer)
        (n + spanSize (r'.next chunk >>= WebsocketRead.getBuffer)) rest

/-- The reader has reported an error, or it knows how much of the payload is to come and
goes on to a header only behind it. A span of negative size is none of this; a failed
`CHECK` ends the process. -/
def Tracks (total n : Nat) : Except Fault (WebsocketRead × List UInt8) → Prop
  | .ok (r, _) =>
      r.error = true ∨ r.payloadRemaining = (total : Int) - n ∧ 0 ≤ r.payloadRemaining ∧
        (¬ 0 < r.payloadRemaining → n = total)
  | .error e => e ≠ .undefined

/-- The chunks that the payload extends to have a size that is not negative as an
`int32_t`. -/
def Fits : Nat → List (List UInt8) → Prop
  | _, [] => True
  | remaining, chunk :: chunks =>
      0 < remaining → chunk.length % 2 ^ 32 < 2 ^ 31 ∧ Fits (remaining - chunk.length) chunks

/-! ## §2  Single calls -/

theorem fits_zero (chunks : List (List UInt8)) : Fits 0 chunks := by
  cases chunks with
  | nil => trivial
  | cons chunk chunks =>
      intro h
      omega

/-- The call that accepts the header. -/
theorem Accepts.getBuffer_eq {r : WebsocketRead} {h : WebSocketHeader} (hacc : Accepts r h) :
    ∃ r₁ : WebsocketRead, r.getBuffer = r₁.acceptHeader r.wsHeader.length h ∧
      r₁.buffer = r.buffer ∧ r₁.error = false := by
  obtain ⟨r₁, hjoin, hparse⟩ := hacc.parsed
  refine ⟨r₁, getBuffer_of_parse (.ok h) hacc.data hacc.between hjoin hparse, ?_⟩
  unfold WebsocketRead.joinHeader WebsocketRead.copyPartialHeader at hjoin
  simp only at hjoin
  split_ifs at hjoin <;> cases hjoin <;> exact ⟨rfl, hacc.noError⟩

theorem Accepts.getBuffer_close {r : WebsocketRead} {h : WebSocketHeader} (hacc : Accepts r h)
    (hclose : h.opCode = OpCodeType.CLOSE) :
    ∃ r' : WebsocketRead, r.getBuffer = .ok (r', []) ∧ r'.error = true := by
  obtain ⟨r₁, hcall, -, -⟩ := hacc.getBuffer_eq
  unfold WebsocketRead.acceptHeader at hcall
  simp only [if_pos hclose] at hcall
  exact ⟨_, hcall, rfl⟩

/-- It goes on with what follows the header in the chunk. -/
theorem Accepts.getBuffer_open {r : WebsocketRead} {h : WebSocketHeader} (hacc : Accepts r h)
    (hopen : h.opCode ≠ OpCodeType.CLOSE) :
    ∃ r₁ : WebsocketRead, r.getBuffer = r₁.nextBuffer ∧
      r₁.buffer = r.buffer.drop (h.headerSize - r.wsHeader.length) ∧ r₁.error = false ∧
      r₁.payloadRemaining = toInt32 h.payloadLength := by
  obtain ⟨r₁, hcall, hbuf, herr⟩ := hacc.getBuffer_eq
  unfold WebsocketRead.acceptHeader at hcall
  simp only [if_neg hopen] at hcall
  exact ⟨_, hcall, by simp only [hbuf], herr, by simp only⟩

/-- `NextBuffer`, when the size of the buffer is not negative and `m` bytes remain. -/
theorem nextBuffer_of_mod_lt {r : WebsocketRead} {m : Nat} (hrem : r.payloadRemaining = m)
    (hmod : r.buffer.length % 2 ^ 32 < 2 ^ 31) :
    ∃ r' out, r.nextBuffer = .ok (r', out) ∧ out.length = min (r.buffer.length % 2 ^ 32) m ∧
      r'.error = r.error ∧ r'.buffer = r.buffer.drop out.length ∧
      r'.payloadRemaining = (m : Int) - out.length := by
  set k := min (r.buffer.length % 2 ^ 32) m with hk
  have hread : min (toInt32 r.buffer.length) r.payloadRemaining = (k : Int) := by
    rw [toInt32_of_mod_lt hmod, hrem]
    omega
  have htake : (r.buffer.take k).length = k := by
    rw [List.length_take]
    have := Nat.mod_le r.buffer.length (2 ^ 32)
    omega
  have hspan : (if r.wsMask then mask r.maskKey r.payloadRead (r.buffer.take k)
      else r.buffer.take k).length = k := by
    split_ifs <;> simp only [length_mask, htake]
  unfold WebsocketRead.nextBuffer
  simp only [hread, Int.toNat_natCast]
  rw [if_neg (by omega)]
  refine ⟨_, _, rfl, hspan, rfl, ?_, ?_⟩
  · rw [hspan]
  · simp only [hspan, hrem]

theorem getBuffer_of_remaining {r : WebsocketRead} (hbuf : r.buffer ≠ [])
    (hrem : 0 < r.payloadRemaining) : r.getBuffer = r.nextBuffer := by
  have hpos : 0 < r.buffer.length := List.length_pos_iff.mpr hbuf
  unfold WebsocketRead.getBuffer
  rw [if_neg (by omega), if_pos hrem]

/-! ## §3  The count is kept -/

/-- Where the reader stands after `n` of `total` bytes. -/
structure Inside (total n : Nat) (r : WebsocketRead) (rest : List (List UInt8)) : Prop where
  noError : r.error = false
  le : n ≤ total
  remaining : r.payloadRemaining = (total : Int) - n
  fits : Fits (total - n) (r.buffer :: rest)

/-- The call came back inside the payload, or a `CHECK` of `Next` has failed. -/
def Stays (total n : Nat) (rest : List (List UInt8)) :
    Except Fault (WebsocketRead × List UInt8) → Prop
  | .ok (r, _) => Inside total n r rest
  | .error e => e = .checkFailed

theorem Stays.tracks {total n : Nat} {rest : List (List UInt8)}
    {result : Except Fault (WebsocketRead × List UInt8)} (h : Stays total n rest result) :
    Tracks total n result := by
  rcases result with e | ⟨r, out⟩
  · intro hundef
    cases h.symm.trans hundef
  · have hle := h.le
    have hrem := h.remaining
    exact .inr ⟨hrem, by omega, by omega⟩

/-- What is left of the chunk after a span still fits. -/
theorem fits_drop {m k : Nat} {chunk : List UInt8} {rest : List (List UInt8)}
    (h : Fits m (chunk :: rest)) (hm : 0 < m) (hk : k = min (chunk.length % 2 ^ 32) m) :
    Fits (m - k) (chunk.drop k :: rest) := by
  obtain ⟨hmod, hrest⟩ := h hm
  have hle := Nat.mod_le chunk.length (2 ^ 32)
  intro hpos
  rw [List.length_drop]
  constructor
  · omega
  · rwa [show m - k - (chunk.length - k) = m - chunk.length by omega]

theorem nextBuffer_stays {total n : Nat} {r : WebsocketRead} {rest : List (List UInt8)}
    (h : Inside total n r rest) (hmod : r.buffer.length % 2 ^ 32 < 2 ^ 31) :
    Stays total (n + spanSize r.nextBuffer) rest r.nextBuffer := by
  have hle := h.le
  have hrem : r.payloadRemaining = (total - n : Nat) := by
    rw [h.remaining]
    omega
  obtain ⟨r', out, hcall, hout, herr, hbuf, hrem'⟩ := nextBuffer_of_mod_lt hrem hmod
  rw [hcall]
  have hfits : Fits (total - n - out.length) (r.buffer.drop out.length :: rest) := by
    rcases Nat.eq_zero_or_pos (total - n) with hzero | hpos
    · rw [hzero, Nat.zero_sub]
      exact fits_zero _
    · exact fits_drop h.fits hpos hout
  show Inside total (n + out.length) r' rest
  exact
    { noError := herr.trans h.noError
      le := by omega
      remaining := by rw [hrem']; omega
      fits := by rwa [hbuf, ← Nat.sub_sub] }

theorem getBuffer_stays {total n : Nat} {r : WebsocketRead} {rest : List (List UInt8)}
    (h : Inside total n r rest) (hmore : n < total) :
    Stays total (n + spanSize r.getBuffer) rest r.getBuffer := by
  by_cases hbuf : r.buffer = []
  · rw [getBuffer_nil hbuf]
    exact h
  · have hrem := h.remaining
    rw [getBuffer_of_remaining hbuf (by omega)]
    exact nextBuffer_stays h (h.fits (by omega)).1

theorem next_stays {total n : Nat} {r : WebsocketRead} {chunk : List UInt8}
    {rest : List (List UInt8)} (h : Inside total n r (chunk :: rest)) (hmore : n < total) :
    Stays total (n + spanSize (r.next chunk >>= WebsocketRead.getBuffer)) rest
      (r.next chunk >>= WebsocketRead.getBuffer) := by
  by_cases hbuf : r.buffer = []
  · rw [next_of_nil hbuf, ok_bind]
    apply getBuffer_stays _ hmore
    have hfits := (h.fits (by omega)).2
    rw [hbuf, List.length_nil, Nat.sub_zero] at hfits
    exact ⟨h.noError, h.le, h.remaining, hfits⟩
  · rw [next_of_ne_nil hbuf]
    rfl

/-- The chunk that the header ends in, and those that follow it. -/
def FitsFrom (r : WebsocketRead) (h : WebSocketHeader) (chunks : List (List UInt8)) : Prop :=
  let rest := r.buffer.drop (h.headerSize - r.wsHeader.length)
  rest.length % 2 ^ 32 < 2 ^ 31 ∧ Fits (h.payloadLength - rest.length) chunks

theorem calls_stay {r : WebsocketRead} {h : WebSocketHeader} {chunks : List (List UInt8)}
    (hacc : Accepts r h) (hopen : h.opCode ≠ OpCodeType.CLOSE) (hshort : h.payloadLength < 2 ^ 31)
    (hfits : FitsFrom r h chunks) {result : Except Fault (WebsocketRead × List UInt8)} {n : Nat}
    {rest : List (List UInt8)} (hcalls : Calls h.payloadLength r chunks result n rest) :
    Stays h.payloadLength n rest result := by
  induction hcalls with
  | header =>
      obtain ⟨r₁, hcall, hbuf, herr, hrem⟩ := hacc.getBuffer_open hopen
      rw [toInt32_of_lt hshort] at hrem
      have hstart : Inside h.payloadLength 0 r₁ chunks :=
        { noError := herr
          le := Nat.zero_le _
          remaining := by rw [hrem]; simp
          fits := fun _ => by rw [hbuf]; exact hfits }
      have hstays := nextBuffer_stays hstart (by rw [hbuf]; exact hfits.1)
      rwa [hcall, ← Nat.zero_add (spanSize _)]
  | buffer _ _ hmore ih => exact getBuffer_stays ih hmore
  | next _ _ hmore ih => exact next_stays ih hmore

/-- After an error no call follows. -/
theorem calls_closed {total : Nat} {r r₁ : WebsocketRead} {chunks : List (List UInt8)}
    (hcall : r.getBuffer = .ok (r₁, [])) (herr : r₁.error = true)
    {result : Except Fault (WebsocketRead × List UInt8)} {n : Nat} {rest : List (List UInt8)}
    (hcalls : Calls total r chunks result n rest) : Tracks total n result := by
  suffices h : result = .ok (r₁, []) by
    rw [h]
    exact .inl herr
  induction hcalls with
  | header => exact hcall
  | buffer _ hopen _ ih =>
      cases ih
      rw [herr] at hopen
      cases hopen
  | next _ hopen _ ih =>
      cases ih
      rw [herr] at hopen
      cases hopen

/-! ## §4  And only then -/

/-- Behind a chunk that was read to its end with the payload still going on. -/
theorem fits_of_tracks {total : Nat} {r : WebsocketRead} {chunks : List (List UInt8)}
    (htracks : ∀ result n rest, Calls total r chunks result n rest → Tracks total n result)
    {r' : WebsocketRead} {out : List UInt8} {n : Nat} {rest : List (List UInt8)}
    (hcalls : Calls total r chunks (.ok (r', out)) n rest) (hbuf : r'.buffer = [])
    (herr : r'.error = false) (hrem : r'.payloadRemaining = (total : Int) - n)
    (hshort : total < 2 ^ 31) : Fits (total - n) rest := by
  induction rest generalizing r' out n with
  | nil => trivial
  | cons chunk rest ih =>
      intro hmore
      have hnext := Calls.next hcalls herr (by omega)
      rw [next_of_nil hbuf, ok_bind] at hnext
      set r₁ : WebsocketRead := { r' with buffer := chunk } with hr₁
      by_cases hne : chunk = []
      · -- nothing to read in it
        rw [getBuffer_nil (r := r₁) hne] at hnext
        subst hne
        exact ⟨by simp, ih hnext rfl herr hrem⟩
      rw [getBuffer_of_remaining (r := r₁) hne (by simp only [hr₁]; omega)] at hnext
      have hmod : chunk.length % 2 ^ 32 < 2 ^ 31 := by
        by_contra hneg
        rw [nextBuffer_of_neg (.inl (toInt32_neg hneg))] at hnext
        exact htracks _ _ _ hnext rfl
      refine ⟨hmod, ?_⟩
      by_cases hlong : total - n ≤ chunk.length
      · rw [Nat.sub_eq_zero_of_le hlong]
        exact fits_zero _
      obtain ⟨r₂, out₂, hcall, hout, herr₂, hbuf₂, hrem₂⟩ :=
        @nextBuffer_of_mod_lt r₁ (total - n) (by simp only [hr₁, hrem]; omega) hmod
      simp only [hr₁] at hout hbuf₂ hrem₂
      rw [hcall] at hnext
      have hall : out₂.length = chunk.length := by
        rw [hout, Nat.mod_eq_of_lt (by omega)]
        omega
      rw [Nat.sub_sub, ← hall]
      apply ih hnext
      · rw [hbuf₂, hall, List.drop_length]
      · exact herr₂.trans herr
      · show r₂.payloadRemaining = (total : Int) - (n + out₂.length : Nat)
        rw [hrem₂]
        omega

/-- **The announced length is tracked** exactly if it is an `int`, and no size of a chunk
turns negative. A close frame is reported as an error whatever it announces. -/
theorem tracks_length_iff {r : WebsocketRead} {h : WebSocketHeader} (hacc : Accepts r h)
    (chunks : List (List UInt8)) :
    (∀ result n rest, Calls h.payloadLength r chunks result n rest →
      Tracks h.payloadLength n result) ↔
      h.opCode = OpCodeType.CLOSE ∨ h.payloadLength < 2 ^ 31 ∧ FitsFrom r h chunks := by
  constructor
  · intro htracks
    by_cases hclose : h.opCode = OpCodeType.CLOSE
    · exact .inl hclose
    obtain ⟨r₁, hcall, hbuf, herr, hrem⟩ := hacc.getBuffer_open hclose
    have hfirst := @Calls.header h.payloadLength r chunks
    rw [hcall] at hfirst
    have hdefined : r₁.nextBuffer ≠ .error .undefined := by
      intro hundef
      rw [hundef] at hfirst
      exact htracks _ _ _ hfirst rfl
    have hnonneg : 0 ≤ toInt32 r₁.buffer.length ∧ 0 ≤ r₁.payloadRemaining := by
      constructor <;> by_contra hneg
      · exact hdefined (nextBuffer_of_neg (.inl (by omega)))
      · exact hdefined (nextBuffer_of_neg (.inr (by omega)))
    have hmod : r₁.buffer.length % 2 ^ 32 < 2 ^ 31 := by
      by_contra hneg
      exact absurd hnonneg.1 (not_le_of_gt (toInt32_neg hneg))
    obtain ⟨r', out, hcall', hout, herr', hbuf', hrem'⟩ :=
      @nextBuffer_of_mod_lt r₁ (toInt32 h.payloadLength).toNat (by omega) hmod
    rw [hcall'] at hfirst
    -- the count starts at the announced length only if the conversion keeps it
    have hsame : toInt32 h.payloadLength = h.payloadLength := by
      rcases htracks _ _ _ hfirst with herr'' | ⟨hkept, -⟩
      · rw [herr', herr] at herr''
        cases herr''
      · rw [hrem'] at hkept
        simp only [spanSize] at hkept
        omega
    have hshort : h.payloadLength < 2 ^ 31 := by
      have := toInt32_lt h.payloadLength
      omega
    refine .inr ⟨hshort, ?_⟩
    rw [hsame, Int.toNat_natCast] at hout hrem'
    unfold FitsFrom
    rw [← hbuf]
    refine ⟨hmod, ?_⟩
    by_cases hlong : h.payloadLength ≤ r₁.buffer.length
    · rw [Nat.sub_eq_zero_of_le hlong]
      exact fits_zero _
    have hall : out.length = r₁.buffer.length := by
      rw [hout, Nat.mod_eq_of_lt (by omega)]
      omega
    rw [← hall]
    exact fits_of_tracks htracks hfirst (by rw [hbuf', hall, List.drop_length])
      (herr'.trans herr) hrem' hshort
  · intro hcond result n rest hcalls
    by_cases hclose : h.opCode = OpCodeType.CLOSE
    · obtain ⟨r', hcall, herr⟩ := hacc.getBuffer_close hclose
      exact calls_closed hcall herr hcalls
    · obtain ⟨hshort, hfits⟩ := hcond.resolve_left hclose
      exact (calls_stay hacc hclose hshort hfits hcalls).tracks

/-- An unmasked binary frame that announces `length` bytes, with its first payload bytes. -/
def announcing (length : Nat) (bytes : List UInt8) : WebsocketRead :=
  { buffer := headerBytes OpCodeType.BINARY_FRAME false .zero length ++ bytes }

/-- Its header, as it is parsed. -/
def announcedHeader (length size : Nat) : WebSocketHeader :=
  { fin := true
    rsv := 0
    mask := false
    opCode := OpCodeType.BINARY_FRAME
    payloadLength := length
    maskingKey := .zero
    headerSize := size }

theorem tracks_length_five :
    Accepts (announcing 5 [1, 2]) (announcedHeader 5 2) ∧
      ∀ result n rest, Calls 5 (announcing 5 [1, 2]) [[3, 4], [5, 6]] result n rest →
        Tracks 5 n result := by
  have hacc : Accepts (announcing 5 [1, 2]) (announcedHeader 5 2) :=
    ⟨rfl, rfl, by decide, _, rfl, by decide⟩
  refine ⟨hacc, (tracks_length_iff hacc [[3, 4], [5, 6]]).mpr (.inr ⟨by decide, by decide, ?_⟩)⟩
  intro _
  exact ⟨by decide, fun _ => ⟨by decide, trivial⟩⟩

/-- Of 2^32 bytes announced the reader waits for none, and takes the first of them for the
next header. -/
theorem announced_length_lost :
    Accepts (announcing (2 ^ 32) [0x88, 0]) (announcedHeader (2 ^ 32) 10) ∧
      ¬ ∀ result n rest, Calls (2 ^ 32) (announcing (2 ^ 32) [0x88, 0]) [] result n rest →
        Tracks (2 ^ 32) n result := by
  have hcall : (announcing (2 ^ 32) [0x88, 0]).getBuffer = .ok ({ buffer := [0x88, 0] }, []) := by
    decide +kernel
  refine ⟨⟨rfl, rfl, by decide, _, rfl, by decide +kernel⟩, fun htracks => ?_⟩
  have hfirst := htracks _ _ _ .header
  rw [hcall] at hfirst
  rcases hfirst with herr | ⟨hkept, -⟩
  · cases herr
  · simp [spanSize] at hkept

end BeyondProtocol.Quic
