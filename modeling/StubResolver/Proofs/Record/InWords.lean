import StubResolver.Proofs.Name.InWords
import StubResolver.Proofs.Record.Advancing

/-!
# Questions and records in words

Reading character strings, the machine adds a string's length to its position before
it looks how much is ahead. The sum has a word all the same, since no memory holds 2
^ 63 octets.
-/

namespace StubResolver.WordReader

def recordType : WordReader RecordType := do
  let code ← u16
  return ⟨code⟩

def recordClass : WordReader RecordClass := do
  let code ← u16
  return ⟨code⟩

def question : WordReader Question := do
  let name ← name
  let type ← recordType
  let recordClass ← recordClass
  return ⟨name, type, recordClass⟩

def recordHeader : WordReader RecordHeader := do
  let owner ← name
  let type ← recordType
  let recordClass ← recordClass
  let ttl ← i32
  let dataLength ← u16
  return ⟨owner, type, recordClass, ttl, dataLength⟩

/-! ## Record data -/

def mx : WordReader RecordData := do
  let preference ← u16
  let exchange ← name
  return .mx preference exchange

def soa : WordReader Soa := do
  let primary ← name
  let mailbox ← name
  let serial ← u32
  let refresh ← u32
  let retry ← u32
  let expire ← u32
  let minimum ← u32
  return ⟨primary, mailbox, serial, refresh, retry, expire, minimum⟩

def stringTurn (stop : UInt64) (done : List (List UInt8)) :
    WordReader (List (List UInt8) ⊕ List (List UInt8)) := do
  let pos ← position
  if stop ≤ pos then return .inr done.reverse
  else
    let length ← u8
    let start ← position
    let last ← orGiveUp (sum? start length.toUInt64)
    if stop < last then fail (.form "character string exceeds record data")
    else
      let string ← take length.toUInt64
      return .inl (string :: done)

def stringsUpTo (stop : UInt64) (done : List (List UInt8)) : WordReader (List (List UInt8)) :=
  repeatM (stringTurn stop) done

def txt (header : RecordHeader) : WordReader RecordData := do
  let pos ← position
  let stop ← orGiveUp (sum? pos header.dataLength.toUInt64)
  let strings ← stringsUpTo stop []
  return .txt strings

def opt (header : RecordHeader) : WordReader Opt := do
  let ttl := header.ttl.toUInt32
  let options ← take header.dataLength.toUInt64
  return ⟨header.recordClass.code, (ttl >>> 24).toUInt8, (ttl >>> 16).toUInt8,
    ttl &&& Opt.dnssecOkMask != 0, options⟩

def unknown (header : RecordHeader) : WordReader RecordData :=
  RecordData.unknown header.type <$> take header.dataLength.toUInt64

def decoders : List (RecordType × (RecordHeader → WordReader RecordData)) :=
  [(.a, fun _ => RecordData.a <$> ip4), (.ns, fun _ => RecordData.ns <$> name),
   (.cname, fun _ => RecordData.cname <$> name), (.soa, fun _ => RecordData.soa <$> soa),
   (.ptr, fun _ => RecordData.ptr <$> name), (.mx, fun _ => mx), (.txt, txt),
   (.aaaa, fun _ => RecordData.aaaa <$> ip6),
   (.opt, fun header => RecordData.opt <$> opt header)]

def decoderFor (type : RecordType) : RecordHeader → WordReader RecordData :=
  ((decoders.find? fun entry => entry.1 = type).map Prod.snd).getD unknown

def record : WordReader Record := do
  let header ← recordHeader
  require header.dataLength.toUInt64
  let start ← position
  let data ← decoderFor header.type header
  let stop ← position
  let consumed ← orGiveUp (difference? stop start)
  if consumed = header.dataLength.toUInt64 then return ⟨header, data⟩
  else fail (.desync header.type header.dataLength consumed)

/-! ## Questions and headers agree -/

section

variable {m : Octets} (hsize : m.size < UInt64.size)
include hsize

theorem agrees_recordType : Agrees m recordType RecordType.read :=
  (agrees_u16 hsize).bind fun _ => agrees_pure _

theorem agrees_recordClass : Agrees m recordClass RecordClass.read :=
  (agrees_u16 hsize).bind fun _ => agrees_pure _

theorem agrees_question : Agrees m question Question.read :=
  (agrees_name hsize).bind fun _ => (agrees_recordType hsize).bind fun _ =>
  (agrees_recordClass hsize).bind fun _ => agrees_pure _

theorem agrees_recordHeader : Agrees m recordHeader RecordHeader.read :=
  (agrees_name hsize).bind fun _ => (agrees_recordType hsize).bind fun _ =>
  (agrees_recordClass hsize).bind fun _ => (agrees_i32 hsize).bind fun _ =>
  (agrees_u16 hsize).bind fun _ => agrees_pure _

end

/-! ## Record data agrees -/

section

def DecodersAgree (m : Octets) (w : RecordHeader → WordReader RecordData) (decoder : Decoder) :
    Prop :=
  ∀ header start, start + header.dataLength.toNat ≤ m.size →
    AgreesAt m start (w header) (decoder header)

def EntriesAgree (m : Octets) (entry : RecordType × (RecordHeader → WordReader RecordData))
    (entry' : RecordType × Decoder) : Prop :=
  entry.1 = entry'.1 ∧ DecodersAgree m entry.2 entry'.2

variable {m : Octets}

theorem decodersAgree_of_agrees {w : RecordHeader → WordReader RecordData} {decoder : Decoder}
    (h : ∀ header, Agrees m (w header) (decoder header)) : DecodersAgree m w decoder :=
  fun header start hroom => h header start ((Nat.le_add_right _ _).trans hroom)

theorem find?_agrees {type : RecordType} {w : RecordHeader → WordReader RecordData}
    {decoder : Decoder} (hdefault : DecodersAgree m w decoder)
    {ws : List (RecordType × (RecordHeader → WordReader RecordData))}
    {ds : List (RecordType × Decoder)} (h : List.Forall₂ (EntriesAgree m) ws ds) :
    DecodersAgree m (((ws.find? fun entry => entry.1 = type).map Prod.snd).getD w)
      (((ds.find? fun entry => entry.1 = type).map Prod.snd).getD decoder) := by
  induction h with
  | nil => exact hdefault
  | @cons entry entry' ws ds hentry hrest ih =>
      obtain ⟨htype, hagrees⟩ := hentry
      by_cases hfound : entry'.1 = type
      · simpa [List.find?_cons, htype, hfound] using hagrees
      · simpa [List.find?_cons, htype, hfound] using ih

variable (hsize : m.size < UInt64.size)
include hsize

theorem agrees_mx : Agrees m mx RecordData.readMx :=
  (agrees_u16 hsize).bind fun _ => (agrees_name hsize).bind fun _ => agrees_pure _

theorem agrees_soa : Agrees m soa Soa.read :=
  (agrees_name hsize).bind fun _ => (agrees_name hsize).bind fun _ =>
  (agrees_u32 hsize).bind fun _ => (agrees_u32 hsize).bind fun _ => (agrees_u32 hsize).bind fun _ =>
  (agrees_u32 hsize).bind fun _ => (agrees_u32 hsize).bind fun _ => agrees_pure _

theorem agrees_takeData (length : UInt16) :
    Agrees m (take length.toUInt64) (Reader.take length.toNat) :=
  UInt16.toNat_toUInt64 length ▸ agrees_take hsize length.toUInt64

theorem agrees_opt (header : RecordHeader) : Agrees m (opt header) (Opt.read header) :=
  (agrees_takeData hsize header.dataLength).bind fun _ => agrees_pure _

theorem agrees_unknown (header : RecordHeader) :
    Agrees m (unknown header) (RecordData.readUnknown header) :=
  (agrees_takeData hsize header.dataLength).map _

end

section

variable {m : Octets} (hsize : m.size < 2 ^ 63)
include hsize

theorem lt_word : m.size < UInt64.size := hsize.trans (by decide)

theorem stringTurn_of_lt {stop pos : Nat} {length : UInt8} (done : List (List UInt8))
    (hmore : pos < stop) (hstop : stop ≤ m.size) (hlength : m[pos]? = some length) :
    stringTurn stop.toUInt64 done m pos.toUInt64 =
      (if stop < pos + 1 + length.toNat then fail (.form "character string exceeds record data")
        else do
          let string ← take length.toUInt64
          return .inl (string :: done)) m (pos + 1).toUInt64 := by
  have hword := lt_word hsize
  have hend : ¬ stop.toUInt64 ≤ pos.toUInt64 := by
    rw [UInt64.le_iff_toNat_le, toNat_toUInt64 hword hstop, toNat_toUInt64 hword (by omega)]
    omega
  -- It is not known yet that so many octets are ahead.
  have hlast : pos + 1 + length.toNat < UInt64.size := by
    have hlt := length.toNat_lt
    unfold UInt64.size
    omega
  have hsum : sum? (pos + 1).toUInt64 length.toUInt64 = some (pos + 1 + length.toNat).toUInt64 := by
    rw [← UInt8.toNat_toUInt64 length] at hlast ⊢
    exact sum?_of_lt hlast
  have hexceeds : stop.toUInt64 < (pos + 1 + length.toNat).toUInt64 ↔
      stop < pos + 1 + length.toNat := by
    rw [UInt64.lt_iff_toNat_lt, toNat_toUInt64 hword hstop, Nat.toUInt64,
      UInt64.toNat_ofNat_of_lt' hlast]
  unfold stringTurn
  rw [bind_of_ok run_position]
  simp only [if_neg hend]
  rw [bind_of_ok (run_u8_of_some hword hlength), bind_of_ok run_position,
    bind_of_ok (run_orGiveUp hsum)]
  simp only [hexceeds]

theorem agreesAt_stringsUpTo {stop pos : Nat} {done : List (List UInt8)} (hstop : stop ≤ m.size)
    (hpos : pos ≤ m.size) :
    AgreesAt m pos (stringsUpTo stop.toUInt64 done) (RecordData.stringsUpTo stop done) := by
  have hword := lt_word hsize
  unfold stringsUpTo
  fun_induction RecordData.stringsUpTo stop done m pos with
  | case1 done pos hend =>
      have hturn : stringTurn stop.toUInt64 done m pos.toUInt64 =
          some (.ok (.inr done.reverse), pos.toUInt64) := by
        unfold stringTurn
        rw [bind_of_ok run_position]
        simp only [if_pos (toUInt64_le_toUInt64 hword hend hpos)]
        rfl
      refine agreesAt_of_ok (by rw [RecordData.stringsUpTo, if_pos hend]) hpos ?_
      exact repeatM_of_inr hturn
  | case2 done pos hmore hnone =>
      have hlt : pos < m.size := (Nat.not_le.1 hmore).trans_le hstop
      exact absurd hnone (by simpa using hlt)
  | case3 done pos hmore length hlength start hexceeds =>
      have hturn := stringTurn_of_lt hsize done (Nat.not_le.1 hmore) hstop hlength
      rw [if_pos hexceeds] at hturn
      have hread : RecordData.stringsUpTo stop done m pos =
          .error (.form "character string exceeds record data") start := by
        rw [RecordData.stringsUpTo, if_neg hmore, hlength]
        exact if_pos hexceeds
      have hstart : start ≤ m.size := (Array.getElem?_eq_some_iff.1 hlength).1
      exact agreesAt_of_error hread hstart (repeatM_of_error hturn)
  | case4 done pos hmore length hlength start hwithin hroom ih =>
      have hturn := stringTurn_of_lt hsize done (Nat.not_le.1 hmore) hstop hlength
      have hstart : start ≤ m.size := (Nat.le_add_right _ _).trans hroom
      have htake := agrees_take hword length.toUInt64 start hstart
      rw [UInt8.toNat_toUInt64] at htake
      rw [if_neg hwithin, bind_of_ok (htake.of_ok (if_pos hroom)).1] at hturn
      refine (ih hroom).congr ?_ (repeatM_of_inl hturn)
      rw [RecordData.stringsUpTo, if_neg hmore, hlength]
      exact (if_neg hwithin).trans (if_pos hroom)
  | case5 done pos hmore length hlength start hwithin hshort => omega

theorem decodersAgree_txt : DecodersAgree m txt RecordData.readTxt := by
  intro header start hroom
  have hstart : start ≤ m.size := (Nat.le_add_right _ _).trans hroom
  have hstop : sum? start.toUInt64 header.dataLength.toUInt64 =
      some (start + header.dataLength.toNat).toUInt64 := by
    rw [← UInt16.toNat_toUInt64 header.dataLength] at hroom ⊢
    exact sum?_of_room (lt_word hsize) hroom
  refine AgreesAt.after_position (AgreesAt.after_value hstop ?_)
  exact (agreesAt_stringsUpTo hsize hroom hstart).bind fun strings next _ hnext =>
    agrees_pure _ next hnext

theorem decoders_agree : List.Forall₂ (EntriesAgree m) decoders Registry.standard.decoders := by
  have hword := lt_word hsize
  have hname (f : Name → RecordData) :
      DecodersAgree m (fun _ => f <$> name) (fun _ => f <$> Name.read) :=
    decodersAgree_of_agrees fun _ => (agrees_name hword).map f
  refine .cons ⟨rfl, ?_⟩ (.cons ⟨rfl, hname _⟩ (.cons ⟨rfl, hname _⟩ (.cons ⟨rfl, ?_⟩
    (.cons ⟨rfl, hname _⟩ (.cons ⟨rfl, ?_⟩ (.cons ⟨rfl, decodersAgree_txt hsize⟩
    (.cons ⟨rfl, ?_⟩ (.cons ⟨rfl, ?_⟩ .nil))))))))
  · exact decodersAgree_of_agrees fun _ => (agrees_ip4 hword).map _
  · exact decodersAgree_of_agrees fun _ => (agrees_soa hword).map _
  · exact decodersAgree_of_agrees fun _ => agrees_mx hword
  · exact decodersAgree_of_agrees fun _ => (agrees_ip6 hword).map _
  · exact decodersAgree_of_agrees fun header => (agrees_opt hword header).map _

theorem decoderFor_agrees (type : RecordType) :
    DecodersAgree m (decoderFor type) (Registry.standard.decoderFor type) :=
  find?_agrees (decodersAgree_of_agrees (agrees_unknown (lt_word hsize))) (decoders_agree hsize)

/-! ## Records agree -/

theorem agrees_record : Agrees m record Registry.standard.readRecord := by
  intro pos hpos
  have hword := lt_word hsize
  refine (agrees_recordHeader hword pos hpos).bind fun header start _ hstart => ?_
  have hrequire := agrees_require hword header.dataLength.toUInt64 start hstart
  rw [UInt16.toNat_toUInt64] at hrequire
  refine hrequire.bind fun _ start' hroom _ => AgreesAt.after_position ?_
  obtain ⟨hroom, rfl⟩ := Reader.require_eq_ok_iff.1 hroom
  refine (decoderFor_agrees hsize header.type header start' hroom).bind
    fun data stop hdata hstop => AgreesAt.after_position ?_
  -- The difference has a word because no standard decoder goes back.
  have hforward : start' ≤ stop :=
    (Registry.standard_decoderFor_movesForward m _ _ _ _ _ hdata).1
  refine AgreesAt.after_value (difference?_of_le hword hforward hstop) ?_
  rw [toUInt64_sub hword hforward hstop]
  dsimp only
  split
  · exact agrees_pure _ stop hstop
  · exact agrees_fail _ stop hstop

end

end StubResolver.WordReader
