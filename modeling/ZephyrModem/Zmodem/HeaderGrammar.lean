import ZephyrModem.Zmodem.Readers

/-!
# What stands on the line when a header is returned

A header reader that returns a header has skipped some bytes and then read one frame in
full: pads, the format, and a body with its CRC.
-/

namespace ZephyrModem.Zmodem
open ZephyrModem.Reactive

variable (crc : CrcService) (rub : Bool)

/-- A frame of the header `hd`, from its ZDLE on. -/
inductive HeaderFrame (hd : Header) : List Byte → Prop where
  | hex {digits buf : List Byte} (length : digits.length = 14) (bytes : hexBytes digits = some buf)
      (check : checkHeader crc false buf = some hd) : HeaderFrame hd (zdle :: zhex :: digits)
  | bin {crc32 : Bool} {units : List ZUnit} (length : units.length = bodyUnits crc32)
      (check : checkHeader crc crc32 (units.map (ZUnit.value rub)) = some hd) :
      HeaderFrame hd (zdle :: (if crc32 then zbin32 else zbin) :: units.flatMap ZUnit.bytes)

def Pads (pads : List Byte) : Prop := pads = [zpad] ∨ pads = [zpad, zpad]

/-- The bytes contain a frame of the header. -/
def HoldsHeader (hd : Header) (bs : List Byte) : Prop :=
  ∃ pre pads frame post, Pads pads ∧ HeaderFrame crc rub hd frame ∧
    bs = pre ++ (pads ++ frame) ++ post

/-! ### The scan -/

/-- What has been read when the scan stands at a read. -/
def ScanTrail : ScanSite → List Byte → Prop
  | .pad, _ => True
  | .padOrZdle, bs => ∃ noise, bs = noise ++ [zpad]
  | .zdle, bs => ∃ noise, bs = noise ++ [zpad, zpad]
  | .format, bs => ∃ noise pads, Pads pads ∧ bs = noise ++ (pads ++ [zdle])

theorem scanTrail_step {s t : ScanSite} {bs : List Byte} {b : Byte} (hs : ScanTrail s bs)
    (h : scanHeader s (.ok b) = .wait t) : ScanTrail t (bs ++ [b]) := by
  cases s with
  | pad =>
    simp only [scanHeader] at h
    split at h
    · rename_i hb
      cases h
      exact ⟨bs, by rw [hb]⟩
    · cases h
      trivial
  | padOrZdle =>
    obtain ⟨noise, rfl⟩ := hs
    simp only [scanHeader] at h
    split at h
    · rename_i hb
      cases h
      exact ⟨noise, by rw [hb, List.append_assoc]; rfl⟩
    · split at h
      · rename_i hb
        cases h
        exact ⟨noise, [zpad], .inl rfl, by rw [hb, List.append_assoc]⟩
      · cases h
        trivial
  | zdle =>
    obtain ⟨noise, rfl⟩ := hs
    simp only [scanHeader] at h
    split at h
    · rename_i hb
      cases h
      exact ⟨noise, [zpad, zpad], .inr rfl, by rw [hb, List.append_assoc]⟩
    · cases h
      trivial
  | format =>
    simp only [scanHeader] at h
    split at h
    · cases h
    · cases h
      trivial

theorem scan_found {s : ScanSite} {pre bs body : List Byte} {format : Byte} (hs : ScanTrail s pre)
    (h : parse scanHeader (.wait s) bs = (.done (some format), body)) :
    ∃ noise pads, Pads pads ∧ pre ++ bs = noise ++ (pads ++ zdle :: format :: body) := by
  induction bs generalizing s pre with
  | nil => cases h
  | cons b bs ih =>
    rw [parse_cons] at h
    cases hb : scanHeader s (.ok b) with
    | wait t =>
      rw [hb] at h
      obtain ⟨noise, pads, hpads, hbytes⟩ := ih (scanTrail_step hs hb) h
      refine ⟨noise, pads, hpads, ?_⟩
      rw [← hbytes, List.append_assoc]
      rfl
    | done a =>
      rw [hb, parse_done] at h
      cases h
      cases s with
      | pad => simp only [scanHeader] at hb; split at hb <;> cases hb
      | padOrZdle => simp only [scanHeader] at hb; split at hb <;> [skip; split at hb] <;> cases hb
      | zdle => simp only [scanHeader] at hb; split at hb <;> cases hb
      | format =>
        simp only [scanHeader] at hb
        split at hb
        · cases hb
          obtain ⟨noise, pads, hpads, rfl⟩ := hs
          exact ⟨noise, pads, hpads, by simp⟩
        · cases hb

/-! ### The body -/

theorem parse_hex_some {buf bs rest : List Byte} {hd : Header} (hlen : buf.length < 14)
    (h : parse (readHeader crc rub) (.wait (.hex buf)) bs = (.done (some hd), rest)) :
    ∃ digits, bs = digits ++ rest ∧ (buf ++ digits).length = 14 ∧
      (hexBytes (buf ++ digits)).bind (checkHeader crc false) = some hd := by
  induction bs generalizing buf with
  | nil => cases h
  | cons b bs ih =>
    rw [parse_cons] at h
    simp only [readHeader] at h
    have hsnoc : (buf ++ [b]).length = buf.length + 1 := List.length_append
    by_cases hmore : (buf ++ [b]).length < 14
    · rw [if_pos hmore] at h
      obtain ⟨digits, rfl, hdigits⟩ := ih hmore h
      exact ⟨b :: digits, rfl, by simpa using hdigits⟩
    · rw [if_neg hmore, parse_done] at h
      obtain ⟨hcheck, rfl⟩ := Prod.mk.inj h
      exact ⟨[b], rfl, by omega, Next.done.inj hcheck⟩

theorem parse_of_call {s : HeaderSite} {bs rest : List Byte} {hd : Header}
    (h : call (readHeader crc rub) s bs = (.done (some hd), rest)) :
    parse (readHeader crc rub) (.wait s) bs = (.done (some hd), rest) := by
  rcases hp : parse (readHeader crc rub) (.wait s) bs with ⟨n, rest'⟩
  cases n with
  | done a => rw [← h, call_of_done hp]
  | wait t =>
    rw [call_of_wait hp, readHeader_timeout] at h
    cases h

theorem call_hex_some {body rest : List Byte} {hd : Header}
    (h : call (readHeader crc rub) (.hex []) body = (.done (some hd), rest)) :
    ∃ digits, body = digits ++ rest ∧ HeaderFrame crc rub hd (zdle :: zhex :: digits) := by
  obtain ⟨digits, hbody, hlen, hcheck⟩ :=
    parse_hex_some crc rub (by decide) (parse_of_call crc rub h)
  obtain ⟨buf, hbuf, hcheck⟩ := Option.bind_eq_some_iff.mp hcheck
  exact ⟨digits, hbody, .hex hlen hbuf hcheck⟩

theorem call_bin_some {crc32 : Bool} {body rest : List Byte} {hd : Header}
    (h : call (readHeader crc rub) (.bin crc32 [] false) body = (.done (some hd), rest)) :
    ∃ units : List ZUnit, body = units.flatMap ZUnit.bytes ++ rest ∧ HeaderFrame crc rub hd
      (zdle :: (if crc32 then zbin32 else zbin) :: units.flatMap ZUnit.bytes) := by
  rcases ZUnit.take_units (bodyUnits crc32) body with
    ⟨us, rest', hlen, rfl⟩ | ⟨us, tail, hlen, htail, rfl⟩
  · rw [call_of_done (parse_bin_body crc rub crc32 us rest' hlen)] at h
    obtain ⟨hcheck, rfl⟩ := Prod.mk.inj h
    exact ⟨us, rfl, .bin hlen (Next.done.inj hcheck)⟩
  · rw [call_bin_short crc rub crc32 us hlen htail] at h
    cases h

/-- A reader returns the header of a frame that it has read to its end. -/
theorem call_some {bs rest : List Byte} {hd : Header}
    (h : call (readHeader crc rub) .pad bs = (.done (some hd), rest)) :
    ∃ noise pads frame, Pads pads ∧ HeaderFrame crc rub hd frame ∧
      bs = noise ++ (pads ++ frame) ++ rest := by
  have hstart : ScanTrail .pad [] := trivial
  have hpad : ScanSite.toHeaderSite .pad = .pad := rfl
  rcases scan_cases .pad bs with ⟨format, body, hformat, hscan⟩ | ⟨s, hscan⟩
  · have hbody := call_of_scan_done crc rub hscan
    rw [hpad, h] at hbody
    obtain ⟨noise, pads, hpads, hbytes⟩ := scan_found hstart hscan
    rw [List.nil_append] at hbytes
    obtain ⟨frame, hframe, hrest⟩ : ∃ frame, HeaderFrame crc rub hd frame ∧
        zdle :: format :: body = frame ++ rest := by
      by_cases hhex : format = zhex
      · subst hhex
        obtain ⟨digits, rfl, hframe⟩ := call_hex_some crc rub hbody.symm
        exact ⟨_, hframe, rfl⟩
      · obtain ⟨crc32, rfl⟩ : ∃ crc32 : Bool, format = if crc32 then zbin32 else zbin := by
          rcases hformat with hf | hf | hf
          · exact absurd hf hhex
          · exact ⟨false, hf⟩
          · exact ⟨true, hf⟩
        rw [bodySite_binary] at hbody
        obtain ⟨units, rfl, hframe⟩ := call_bin_some crc rub hbody.symm
        exact ⟨_, hframe, rfl⟩
    refine ⟨noise, pads, frame, hpads, hframe, ?_⟩
    rw [hbytes, hrest, List.append_assoc, List.append_assoc]
  · have hnone := call_of_scan_wait crc rub hscan
    rw [hpad, h] at hnone
    cases hnone

end ZephyrModem.Zmodem
