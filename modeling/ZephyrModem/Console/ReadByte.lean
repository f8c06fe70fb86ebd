import ZephyrModem.Xmodem.File
import ZephyrModem.Xmodem.Frames

/-!
# The console's `read_byte` (`src/zephyr_console_modem.c:218-274`)

The abort monitor looks at every byte that comes off the console. The results
below say when an XMODEM transmission passes through it unchanged.
-/

namespace ZephyrModem.Console
open ZephyrModem.Reactive ZephyrModem.Xmodem

/-- The fields of `console_modem_settings_t` that the monitor uses. -/
structure AbortSettings where
  abortKey : Bool
  abortKeyChar : Byte
  deriving Repr, DecidableEq

/-- `console_read_byte`: `channel` is the answer of an active channel, `got` what
the polling loop found before the time-out; also returns the new `g_can_count`. -/
def consoleReadByte (settings : AbortSettings) (canCount : ℕ) (channel : Option Read)
    (got : Option Byte) : Read × ℕ :=
  match channel, got with
  | some r, _ => (r, canCount)
  | none, none => (.timeout, canCount)
  | none, some b =>
    if settings.abortKey then
      if b = settings.abortKeyChar then (.cancel, canCount)
      else if b = 0x18 then
        if canCount + 1 ≥ 2 then (.cancel, 0) else (.ok b, canCount + 1)
      else (.ok b, 0)
    else (.ok b, canCount)

/-- The results of the calls that meet the bytes `bs` on the console. -/
def consoleReads (settings : AbortSettings) : ℕ → List Byte → List Read
  | _, [] => []
  | canCount, b :: bs =>
    let (r, canCount) := consoleReadByte settings canCount none (some b)
    r :: consoleReads settings canCount bs

/-- Nothing in `bs` looks like an abort: no abort key, no two CAN in a row. -/
def Unsuspicious (key : Byte) (bs : List Byte) : Prop := key ∉ bs ∧ ¬ [can, can] <:+: bs

/-! ### The monitor on a stream of bytes -/

theorem consoleReads_cons (settings : AbortSettings) (g : ℕ) (b : Byte) (bs : List Byte) :
    consoleReads settings g (b :: bs) = (consoleReadByte settings g none (some b)).1 ::
      consoleReads settings (consoleReadByte settings g none (some b)).2 bs := rfl

theorem consoleReads_disabled (key : Byte) (g : ℕ) (bs : List Byte) :
    consoleReads ⟨false, key⟩ g bs = bs.map .ok := by
  induction bs generalizing g with
  | nil => rfl
  | cons b bs ih => simp [consoleReads, consoleReadByte, ih]

theorem Unsuspicious.tail {key b : Byte} {bs : List Byte} (h : Unsuspicious key (b :: bs)) :
    Unsuspicious key bs :=
  ⟨fun hin => h.1 (List.mem_cons_of_mem b hin), fun hin => h.2 (hin.trans (List.suffix_cons b bs).isInfix)⟩

/-- The monitor lets an unsuspicious stream pass, unless a CAN counted before it
meets a CAN at its start. -/
theorem consoleReads_unsuspicious {key : Byte} {g : ℕ} {bs : List Byte} (rest : List Byte)
    (h : Unsuspicious key bs) (hg : g = 0 ∨ bs.head? ≠ some can) :
    ∃ g', consoleReads ⟨true, key⟩ g (bs ++ rest) =
      bs.map .ok ++ consoleReads ⟨true, key⟩ g' rest := by
  induction bs generalizing g with
  | nil => exact ⟨g, rfl⟩
  | cons b bs ih =>
    have hkey : b ≠ key := fun he => h.1 (he ▸ List.mem_cons_self ..)
    by_cases hcan : b = can
    · subst hcan
      have hzero : g = 0 := by simpa using hg
      have hnext : bs.head? ≠ some can := by
        intro hhead
        obtain ⟨bs', rfl⟩ : ∃ bs', bs = can :: bs' := by
          cases bs with
          | nil => cases hhead
          | cons c bs' => exact ⟨bs', by simpa using hhead⟩
        exact h.2 ⟨[], bs', rfl⟩
      obtain ⟨g', hg'⟩ := ih (g := 1) h.tail (.inr hnext)
      refine ⟨g', ?_⟩
      have hread : consoleReadByte ⟨true, key⟩ g none (some can) = (.ok can, 1) := by
        have hkey' : ¬ (0x18 : Byte) = key := hkey
        simp [consoleReadByte, hkey', hzero, can]
      simp only [List.cons_append, consoleReads, hread, hg', List.map_cons]
    · obtain ⟨g', hg'⟩ := ih (g := 0) h.tail (.inl rfl)
      refine ⟨g', ?_⟩
      have hread : consoleReadByte ⟨true, key⟩ g none (some b) = (.ok b, 0) := by
        have hcan' : ¬ b = 0x18 := hcan
        simp [consoleReadByte, hkey, hcan']
      simp only [List.cons_append, consoleReads, hread, hg', List.map_cons]

theorem unsuspicious_of_consoleReads {key : Byte} {g : ℕ} {bs : List Byte}
    (h : consoleReads ⟨true, key⟩ g bs = bs.map .ok) : Unsuspicious key bs := by
  induction bs generalizing g with
  | nil => exact ⟨by simp, by simp⟩
  | cons b bs ih =>
    rw [consoleReads, List.map_cons, List.cons.injEq] at h
    obtain ⟨hb, hrest⟩ := h
    have hkey : b ≠ key := by
      rintro rfl
      simp [consoleReadByte] at hb
    obtain ⟨hmem, hpair⟩ := ih hrest
    refine ⟨by simp [hmem, Ne.symm hkey], ?_⟩
    rintro ⟨pre, post, hsplit⟩
    cases pre with
    | cons c pre =>
      rw [List.cons_append, List.cons_append, List.cons.injEq] at hsplit
      exact hpair ⟨pre, post, hsplit.2⟩
    | nil =>
      -- two CAN in front: the second one is counted as the second
      simp only [List.nil_append, List.cons_append, List.cons.injEq] at hsplit
      obtain ⟨rfl, rfl⟩ := hsplit
      have hone : (consoleReadByte ⟨true, key⟩ g none (some can)).2 ≠ 0 := by
        have hkey' : ¬ (0x18 : Byte) = key := hkey
        simp only [consoleReadByte, can] at hb ⊢
        split_ifs at hb ⊢ <;> simp_all
      rw [consoleReads, List.map_cons, List.cons.injEq] at hrest
      have hfire := hrest.1
      have hge : (consoleReadByte ⟨true, key⟩ g none (some can)).2 + 1 ≥ 2 := by omega
      generalize (consoleReadByte ⟨true, key⟩ g none (some can)).2 = n at hfire hge
      have hkey' : ¬ (0x18 : Byte) = key := hkey
      simp [consoleReadByte, can, hkey', hge] at hfire

theorem consoleReads_fires {key : Byte} {g : ℕ} {bs : List Byte}
    (h : consoleReads ⟨true, key⟩ g bs ≠ bs.map .ok) :
    ∃ i < bs.length, ∃ rest : List Read, rest.length + i + 1 = bs.length ∧
      consoleReads ⟨true, key⟩ g bs = (bs.take i).map .ok ++ .cancel :: rest := by
  have hlen : ∀ g bs, (consoleReads ⟨true, key⟩ g bs).length = bs.length := by
    intro g bs
    induction bs generalizing g with
    | nil => rfl
    | cons b bs ih => simp [consoleReads, ih]
  induction bs generalizing g with
  | nil => exact absurd rfl h
  | cons b bs ih =>
    rw [consoleReads_cons, List.map_cons] at h
    have hcases : (consoleReadByte ⟨true, key⟩ g none (some b)).1 = .cancel ∨
        (consoleReadByte ⟨true, key⟩ g none (some b)).1 = .ok b := by
      simp only [consoleReadByte]
      split_ifs <;> simp
    rcases hcases with hc | hok
    · refine ⟨0, by simp, consoleReads ⟨true, key⟩ (consoleReadByte ⟨true, key⟩ g none (some b)).2 bs,
        by simp [hlen], ?_⟩
      simp [consoleReads_cons, hc]
    · rw [hok, ne_eq, List.cons.injEq, not_and] at h
      obtain ⟨i, hi, rest, hrest, he⟩ := ih (h rfl)
      refine ⟨i + 1, by simpa using hi, rest, by simp only [List.length_cons]; omega, ?_⟩
      simp [consoleReads_cons, hok, he]

theorem consoleReads_append (settings : AbortSettings) (g : ℕ) (as bs : List Byte) :
    ∃ g', consoleReads settings g (as ++ bs) =
      consoleReads settings g as ++ consoleReads settings g' bs := by
  induction as generalizing g with
  | nil => exact ⟨g, rfl⟩
  | cons a as ih =>
    obtain ⟨g', hg'⟩ := ih (consoleReadByte settings g none (some a)).2
    exact ⟨g', by rw [List.cons_append, consoleReads_cons, hg', consoleReads_cons, List.cons_append]⟩

/-! ### A correct transmission -/

section Transmission

variable {υ : Type} (P : Platform) (crc : CrcService) (cbs : RxCallbacks υ) (rcfg : Config) (c : Bool)

/-- The bytes of a correct transmission of the blocks from number `n` on. -/
def transmission : ℕ → List (List Byte) → List Byte
  | _, [] => [eot]
  | n, b :: blocks => packet crc c (UInt8.ofNat n) b ++ transmission (n + 1) blocks

/-- The part of the transmission up to the first block that the storage refuses. -/
def readPart : ℕ → List (List Byte) → υ → List Byte
  | _, [], _ => [eot]
  | n, b :: blocks, u =>
    packet crc c (UInt8.ofNat n) b ++
      if (cbs.dataCb (UInt8.ofNat n) b u).1 = 0 then
        readPart (n + 1) blocks (cbs.dataCb (UInt8.ofNat n) b u).2
      else []

theorem readPart_prefix (n : ℕ) (blocks : List (List Byte)) (u : υ) :
    ∃ rest, transmission crc c n blocks = readPart crc cbs c n blocks u ++ rest := by
  induction blocks generalizing n u with
  | nil => exact ⟨[], rfl⟩
  | cons b blocks ih =>
    simp only [transmission, readPart]
    split
    · obtain ⟨rest, h⟩ := ih (n + 1) (cbs.dataCb (UInt8.ofNat n) b u).2
      exact ⟨rest, by rw [h, List.append_assoc]⟩
    · exact ⟨transmission crc c (n + 1) blocks, by rw [List.append_nil]⟩

theorem readPart_head (n : ℕ) (blocks : List (List Byte)) (u : υ) :
    (readPart crc cbs c n blocks u).head? ≠ some can := by
  cases blocks with
  | nil => simp [readPart, eot, can]
  | cons b blocks =>
    simp only [readPart, packet, List.cons_append, List.head?_cons, ne_eq, Option.some.injEq]
    split <;> decide

/-- The receiver inside a transmission: at a header or inside a packet until the
last byte, and then returned with `XMODEM_OK` or `XMODEM_ERROR_IO`. -/
theorem feed_readPart (n : ℕ) (blocks : List (List Byte)) (v : RxLocals υ)
    (hlen : ∀ b ∈ blocks, b.length = blockSize128 ∨ b.length = blockSize1024)
    (hexp : v.expectedBlock = UInt8.ofNat n) (hc : v.crcMode = c) :
    (∀ k < (readPart crc cbs c n blocks v.userData).length, ∃ s : RxState υ,
      (feed (receiveStep P crc cbs rcfg) (.wait ⟨.header, v⟩)
        ((readPart crc cbs c n blocks v.userData).take k)).next = .wait s ∧
      (s.site = .header ∨ s.site.InPacket)) ∧
    ∃ r, (feed (receiveStep P crc cbs rcfg) (.wait ⟨.header, v⟩) (readPart crc cbs c n blocks v.userData)).next =
      .done r ∧ (r.status = .ok ∨ r.status = .errorIo) := by
  subst hc
  induction blocks generalizing n v with
  | nil =>
    refine ⟨?_, ⟨.ok, some v.totalBytes⟩, ?_, .inl rfl⟩
    · intro k hk
      obtain rfl : k = 0 := by simpa [readPart] using hk
      exact ⟨_, by rw [List.take_zero, feed_nil], .inl rfl⟩
    · simp [readPart, feed_cons, feed_nil, receiveStep, headerByte]
  | cons b blocks ih =>
    have hb := hlen b (List.mem_cons_self ..)
    have hframe := sentPacket_framed crc v.crcMode (UInt8.ofNat n) b hb
    have hver := sentPacket_verified crc v.crcMode (UInt8.ofNat n) b
    have hfull := feed_packet P crc cbs rcfg v _ hframe
    rw [if_pos hver, sentPacket_bytes] at hfull
    -- inside this packet
    have hinside : ∀ k < (packet crc v.crcMode (UInt8.ofNat n) b).length, ∃ s : RxState υ,
        (feed (receiveStep P crc cbs rcfg) (.wait ⟨.header, v⟩)
          ((packet crc v.crcMode (UInt8.ofNat n) b).take k)).next = .wait s ∧
        (s.site = .header ∨ s.site.InPacket) := by
      intro k hk
      rcases Nat.eq_zero_or_pos k with rfl | hpos
      · exact ⟨_, by rw [List.take_zero, feed_nil], .inl rfl⟩
      · obtain ⟨site, hsite, hf⟩ := feed_packet_take P crc cbs rcfg v _ hframe hver.1 k hk hpos
        rw [sentPacket_bytes] at hf
        exact ⟨⟨site, v⟩, by rw [hf], .inr hsite⟩
    by_cases hres : (cbs.dataCb (UInt8.ofNat n) b v.userData).1 = 0
    · have hnext : ∃ v' : RxLocals υ, (acceptPacket P cbs v (UInt8.ofNat n) b).next =
          .wait ⟨.header, v'⟩ ∧ v'.userData = (cbs.dataCb (UInt8.ofNat n) b v.userData).2 ∧
          v'.expectedBlock = UInt8.ofNat (n + 1) ∧ v'.crcMode = v.crcMode := by
        rw [← hexp] at hres ⊢
        rw [acceptPacket_stored P cbs v b hres]
        refine ⟨_, rfl, rfl, ?_, rfl⟩
        rw [UInt8.ofNat_add, ← hexp]
        rfl
      obtain ⟨v', hn, hu, he, hcr⟩ := hnext
      obtain ⟨hpre, r, hr, hst⟩ := ih (n + 1) v' (fun b' hb' => hlen b' (List.mem_cons_of_mem b hb')) he
      rw [hcr, hu] at hpre hr
      simp only [readPart, hres, if_true]
      refine ⟨?_, r, ?_, hst⟩
      · intro k hk
        by_cases hlt : k < (packet crc v.crcMode (UInt8.ofNat n) b).length
        · rw [List.take_append_of_le_length (by omega)]
          exact hinside k hlt
        · obtain ⟨j, rfl⟩ : ∃ j, k = (packet crc v.crcMode (UInt8.ofNat n) b).length + j :=
            ⟨k - (packet crc v.crcMode (UInt8.ofNat n) b).length, by omega⟩
          rw [List.take_length_add_append, feed_append, Out.after_next, hfull]
          change ∃ s : RxState υ, (feed (receiveStep P crc cbs rcfg) (acceptPacket P cbs v (UInt8.ofNat n) b).next
            _).next = .wait s ∧ (s.site = .header ∨ s.site.InPacket)
          rw [hn]
          exact hpre j (by rw [List.length_append] at hk; omega)
      · rw [feed_append, Out.after_next, hfull]
        change (feed (receiveStep P crc cbs rcfg) (acceptPacket P cbs v (UInt8.ofNat n) b).next _).next = _
        rw [hn]
        exact hr
    · simp only [readPart, hres, if_false, List.append_nil]
      refine ⟨hinside, ⟨.errorIo, none⟩, ?_, .inr rfl⟩
      rw [hfull]
      change (acceptPacket P cbs v (UInt8.ofNat n) b).next = _
      rw [← hexp] at hres ⊢
      rw [acceptPacket_refused P cbs v b hres]
      rfl

/-- A cancellation inside a transmission ends the receiver with
`XMODEM_ERROR_CANCEL`, after one more read where two bytes are read together. -/
theorem run_cancel (s : RxState υ) (rest : List Read) (hs : s.site = .header ∨ s.site.InPacket)
    (hrest : (∃ b r, (receiveStep P crc cbs rcfg s (.ok b)).next = .done r) ∨ rest ≠ []) :
    (run (receiveStep P crc cbs rcfg) (.wait s) (.cancel :: rest)).next =
      .done ⟨.errorCancel, none⟩ := by
  obtain ⟨site, v⟩ := s
  have hnow : receiveStep P crc cbs rcfg ⟨site, v⟩ .cancel = rxCancelled →
      (run (receiveStep P crc cbs rcfg) (.wait ⟨site, v⟩) (.cancel :: rest)).next =
        .done ⟨.errorCancel, none⟩ := by
    intro h
    rw [run_wait, h]
    simp [rxCancelled, rxFail]
  have hlater : ∀ site', receiveStep P crc cbs rcfg ⟨site, v⟩ .cancel = rxAt site' v →
      (∀ b, ∃ site'', receiveStep P crc cbs rcfg ⟨site, v⟩ (.ok b) = rxAt site'' v) →
      (∀ r, receiveStep P crc cbs rcfg ⟨site', v⟩ r = rxCancelled) →
      (run (receiveStep P crc cbs rcfg) (.wait ⟨site, v⟩) (.cancel :: rest)).next =
        .done ⟨.errorCancel, none⟩ := by
    intro site' h hok hany
    rcases hrest with ⟨b, r, hr⟩ | hne
    · obtain ⟨site'', hsite⟩ := hok b
      rw [hsite] at hr
      cases hr
    · obtain ⟨r, rest', rfl⟩ := List.exists_cons_of_ne_nil hne
      rw [run_wait, h, rxAt, run_wait, hany]
      simp [rxCancelled, rxFail]
  cases site with
  | header => exact hnow rfl
  | blkNum len =>
    exact hlater (.blkNumInv len .cancel) rfl (fun b => ⟨_, rfl⟩)
      (fun r => by simp [receiveStep, checkNumbers])
  | blkNumInv len r1 => exact hnow (by simp [receiveStep, checkNumbers])
  | payload len n buf => exact hnow rfl
  | crcHi n buf =>
    exact hlater (.crcLo n buf .cancel) rfl (fun b => ⟨_, rfl⟩)
      (fun r => by simp [receiveStep, checkCrc])
  | crcLo n buf cr1 => exact hnow (by simp [receiveStep, checkCrc])
  | cksum n buf => exact hnow rfl
  | secondCan => simp [RxSite.InPacket] at hs
  | purge bad => simp [RxSite.InPacket] at hs

end Transmission

/-! ### Transparency -/

section Transparency

variable {υ : Type} (P : Platform) (crc : CrcService) (cbs : RxCallbacks υ) (rcfg tcfg : Config)
  (file : List Byte)

/-- The check mode that the receiver's first request asks for. -/
def requestsCrc (rcfg : Config) : Bool := rcfg.mode ≠ .standard

/-- The bytes of a correct transmission of a file. -/
def fileTransmission (c : Bool) : List Byte :=
  transmission crc c 1 (fileBlocks (txBlockSize tcfg) file)

/-- What a receive comes to: the returned status and the blocks given to `data_cb`. -/
def outcome (userData : υ) (reads : List Read) : Option Status × List (List Byte) :=
  let o := run (receiveStep P crc cbs rcfg) (xmodemReceive rcfg userData).next reads
  (match o.next with
    | .done r => some r.status
    | .wait _ => none, delivered o.events)

/-- With the monitor enabled the receive comes to the same as with it disabled. -/
def Transparent (key : Byte) (canCount : ℕ) (userData : υ) (bs : List Byte) : Prop :=
  outcome P crc cbs rcfg userData (consoleReads ⟨true, key⟩ canCount bs) =
    outcome P crc cbs rcfg userData (consoleReads ⟨false, key⟩ canCount bs)

instance (key : Byte) (canCount : ℕ) (userData : υ) (bs : List Byte) :
    Decidable (Transparent P crc cbs rcfg key canCount userData bs) :=
  inferInstanceAs (Decidable (_ = _))

/-- The part of the transmission that the receiver reads with the monitor disabled. -/
def fileReadPart (userData : υ) : List Byte :=
  readPart crc cbs (requestsCrc rcfg) 1 (fileBlocks (txBlockSize tcfg) file) userData

theorem feed_fileReadPart (userData : υ) :
    (∀ k < (fileReadPart crc cbs rcfg tcfg file userData).length, ∃ s : RxState υ,
      (feed (receiveStep P crc cbs rcfg) (xmodemReceive rcfg userData).next
        ((fileReadPart crc cbs rcfg tcfg file userData).take k)).next = .wait s ∧
      (s.site = .header ∨ s.site.InPacket)) ∧
    ∃ r, (feed (receiveStep P crc cbs rcfg) (xmodemReceive rcfg userData).next
        (fileReadPart crc cbs rcfg tcfg file userData)).next = .done r ∧
      (r.status = .ok ∨ r.status = .errorIo) := by
  refine feed_readPart P crc cbs rcfg (requestsCrc rcfg) 1 _ (rxInit rcfg userData) ?_ rfl rfl
  intro b hb
  obtain ⟨i, -, rfl⟩ := List.mem_map.mp hb
  rw [fileBlock_length]
  exact txBlockSize_cases tcfg

theorem outcome_fileReadPart (userData : υ) :
    ∃ r : RxResult, (r.status = .ok ∨ r.status = .errorIo) ∧ ∀ more, outcome P crc cbs rcfg userData
      ((fileReadPart crc cbs rcfg tcfg file userData).map .ok ++ more) =
        (some r.status, delivered (feed (receiveStep P crc cbs rcfg) (xmodemReceive rcfg userData).next
          (fileReadPart crc cbs rcfg tcfg file userData)).events) := by
  obtain ⟨-, r, hr, hst⟩ := feed_fileReadPart P crc cbs rcfg tcfg file userData
  refine ⟨r, hst, fun more => ?_⟩
  have hr' : (run (receiveStep P crc cbs rcfg) (xmodemReceive rcfg userData).next
      ((fileReadPart crc cbs rcfg tcfg file userData).map .ok)).next = .done r := hr
  simp only [outcome, run_append, Out.after_next, Out.after_events, hr', run_done, List.append_nil]
  rfl

theorem fileTransmission_split (userData : υ) :
    ∃ rest, fileTransmission crc tcfg file (requestsCrc rcfg) =
      fileReadPart crc cbs rcfg tcfg file userData ++ rest :=
  readPart_prefix crc cbs (requestsCrc rcfg) 1 _ userData

/-- An abort seen in the part that the receiver reads changes the status. -/
theorem unsuspicious_of_transparent (key : Byte) (canCount : ℕ) (userData : υ)
    (h : Transparent P crc cbs rcfg key canCount userData
      (fileTransmission crc tcfg file (requestsCrc rcfg))) :
    Unsuspicious key (fileReadPart crc cbs rcfg tcfg file userData) := by
  obtain ⟨hpre, r, hr, -⟩ := feed_fileReadPart P crc cbs rcfg tcfg file userData
  obtain ⟨rest, hsplit⟩ := fileTransmission_split crc cbs rcfg tcfg file userData
  unfold Transparent at h
  obtain ⟨r', hst, hout⟩ := outcome_fileReadPart P crc cbs rcfg tcfg file userData
  rw [consoleReads_disabled, hsplit, List.map_append, hout] at h
  generalize fileReadPart crc cbs rcfg tcfg file userData = part at *
  by_contra hbad
  obtain ⟨i, hi, tail, htail, hreads⟩ := consoleReads_fires
    (mt (unsuspicious_of_consoleReads (g := canCount)) hbad)
  obtain ⟨g', happ⟩ := consoleReads_append ⟨true, key⟩ canCount part rest
  obtain ⟨s, hs, hsite⟩ := hpre i hi
  have hcancel : (run (receiveStep P crc cbs rcfg) (.wait s)
      (.cancel :: (tail ++ consoleReads ⟨true, key⟩ g' rest))).next =
      .done ⟨.errorCancel, none⟩ := by
    apply run_cancel P crc cbs rcfg s _ hsite
    by_cases hlast : i + 1 = part.length
    · left
      have hall : part.take i ++ [part[i]] = part := by
        rw [List.take_append_getElem hi, hlast, List.take_length]
      rw [← hall, feed_append, Out.after_next, hs, feed_cons, feed_nil] at hr
      exact ⟨part[i], r, hr⟩
    · right
      intro hnil
      have := congrArg List.length hnil
      simp only [List.length_append, List.length_nil] at this
      omega
  have hs' : (run (receiveStep P crc cbs rcfg) (xmodemReceive rcfg userData).next
      ((part.take i).map .ok)).next = .wait s := hs
  have hstatus := congrArg Prod.fst h
  rw [happ, hreads] at hstatus
  simp only [outcome, List.append_assoc, List.cons_append, run_append, hs', Out.after_next,
    hcancel, Option.some.injEq] at hstatus
  rcases hst with hok | hio
  · rw [hok] at hstatus
    cases hstatus
  · rw [hio] at hstatus
    cases hstatus

/-- A transmission passes the monitor unnoticed exactly when the part of it that
the receiver reads contains neither the abort key nor two CAN in a row. -/
theorem transparent_iff (key : Byte) (canCount : ℕ) (userData : υ) :
    Transparent P crc cbs rcfg key canCount userData
        (fileTransmission crc tcfg file (requestsCrc rcfg)) ↔
      Unsuspicious key (fileReadPart crc cbs rcfg tcfg file userData) := by
  constructor
  · exact unsuspicious_of_transparent P crc cbs rcfg tcfg file key canCount userData
  · intro hquiet
    obtain ⟨rest, hsplit⟩ := fileTransmission_split crc cbs rcfg tcfg file userData
    obtain ⟨g', hpass⟩ := consoleReads_unsuspicious (g := canCount) rest hquiet
      (.inr (readPart_head crc cbs (requestsCrc rcfg) 1 _ userData))
    obtain ⟨r, -, hout⟩ := outcome_fileReadPart P crc cbs rcfg tcfg file userData
    unfold Transparent
    rw [consoleReads_disabled, hsplit, hpass, List.map_append, hout, hout]

end Transparency

theorem readPart_acceptingStorage (crc : CrcService) (c : Bool) (n : ℕ) (blocks : List (List Byte)) :
    readPart crc acceptingStorage c n blocks () = transmission crc c n blocks := by
  induction blocks generalizing n with
  | nil => rfl
  | cons b blocks ih =>
    simp only [readPart, transmission, acceptingStorage, if_true]
    exact congrArg _ (ih (n + 1))

theorem number_mem_transmission (crc : CrcService) (c : Bool) (n j : ℕ) (blocks : List (List Byte))
    (hj : j < blocks.length) : UInt8.ofNat (n + j) ∈ transmission crc c n blocks := by
  induction blocks generalizing n j with
  | nil => cases hj
  | cons b blocks ih =>
    rw [transmission, List.mem_append]
    cases j with
    | zero => exact .inl (by simp [packet])
    | succ j =>
      right
      rw [Nat.add_comm j 1, ← Nat.add_assoc]
      exact ih (n + 1) j (by simpa using hj)

theorem canPair_transmission (crc : CrcService) (c : Bool) (n : ℕ) (t : List Byte)
    (blocks : List (List Byte)) :
    [can, can] <:+: transmission crc c n ((can :: can :: t) :: blocks) := by
  refine ⟨[if (can :: can :: t).length = blockSize1024 then stx else soh, UInt8.ofNat n,
    ~~~(UInt8.ofNat n)], t ++ checkBytes crc c (can :: can :: t) ++ transmission crc c (n + 1) blocks, ?_⟩
  simp only [transmission, packet, List.cons_append, List.nil_append, List.append_assoc]

/-- The default abort key is the number of the third block; two CAN at the start
of a file abort its transfer with any other key. -/
theorem not_transparent_third_block :
    ¬ Transparent platform32 referenceCrc acceptingStorage configInit 0x03 0 ()
      (fileTransmission referenceCrc ⟨.crc, 10⟩ (List.replicate 300 0x41) (requestsCrc configInit)) ∧
    ¬ Transparent platform32 referenceCrc acceptingStorage configInit 0x1B 0 ()
      (fileTransmission referenceCrc ⟨.crc, 10⟩ [can, can] (requestsCrc configInit)) := by
  constructor
  · intro h
    have hkey := (unsuspicious_of_transparent _ _ _ _ _ _ _ _ _ h).1
    rw [fileReadPart, readPart_acceptingStorage] at hkey
    refine hkey (number_mem_transmission referenceCrc _ 1 2 _ ?_)
    rw [fileBlocks, List.length_map, List.length_range, blockCount, List.length_replicate]
    decide
  · intro h
    have hpair := (unsuspicious_of_transparent _ _ _ _ _ _ _ _ _ h).2
    rw [fileReadPart, readPart_acceptingStorage] at hpair
    have hblocks : fileBlocks (txBlockSize ⟨.crc, 10⟩) [can, can] =
        [can :: can :: List.replicate 126 0x1A] := by
      decide +kernel
    rw [hblocks] at hpair
    exact hpair (canPair_transmission referenceCrc _ 1 _ [])

end ZephyrModem.Console
