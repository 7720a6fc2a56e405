import Mathlib.Data.Nat.Bitwise
import StubResolver.Proofs.Message.Framing
import StubResolver.Proofs.Record.CharacterStrings

/-!
# What record data takes up

The type in its header says what the data of a record is made of: an address, names
and integers, or as many octets as the header announces. Names in the data may point
out of it, and nothing keeps what stands in place from reaching beyond the data. A
record is read if it ends where its data does.
-/

namespace StubResolver

open Name

/-! ## The fields of each type -/

def Soa.numberOctets (s : Soa) : List UInt8 :=
  [s.serial, s.refresh, s.retry, s.expire, s.minimum].flatMap Wire.octets32

/-- The class is the payload size. The octets of the time to live are the upper bits
of the response code, the version, and two octets of flags, of which the highest asks
for DNSSEC records. -/
structure Opt.PackedInto (o : Opt) (h : RecordHeader) : Prop where
  payloadSize : o.payloadSize = h.recordClass.code
  ttl : ∃ high low, Wire.octets32 h.ttl.toUInt32 = [o.extendedRcode, o.version, high, low] ∧
    (o.dnssecOk ↔ 0x80 ≤ high.toNat)

/-- The fields that a record of the header's type has stand from `start` on. The
position is where they end there, for names behind the root label or the first
pointer. -/
inductive RecordData.InPlace (m : Octets) (h : RecordHeader) (start : Nat) :
    RecordData → Nat → Prop where
  | a {ip : Ip4} (type : h.type = .a) (octets : StandsAt m start ip.octets.toList) :
      InPlace m h start (.a ip) (start + 4)
  | aaaa {ip : Ip6} (type : h.type = .aaaa) (octets : StandsAt m start ip.octets.toList) :
      InPlace m h start (.aaaa ip) (start + 16)
  | ns {host : Name} {stop : Nat} (type : h.type = .ns) (name : host.Occupies m start stop) :
      InPlace m h start (.ns host) stop
  | cname {target : Name} {stop : Nat} (type : h.type = .cname)
      (name : target.Occupies m start stop) : InPlace m h start (.cname target) stop
  | ptr {target : Name} {stop : Nat} (type : h.type = .ptr)
      (name : target.Occupies m start stop) : InPlace m h start (.ptr target) stop
  | mx {preference : UInt16} {exchange : Name} {stop : Nat} (type : h.type = .mx)
      (number : StandsAt m start (Wire.octets16 preference))
      (name : exchange.Occupies m (start + 2) stop) :
      InPlace m h start (.mx preference exchange) stop
  | soa {s : Soa} {mid mid' : Nat} (type : h.type = .soa) (primary : s.primary.Occupies m start mid)
      (mailbox : s.mailbox.Occupies m mid mid') (numbers : StandsAt m mid' s.numberOctets) :
      InPlace m h start (.soa s) (mid' + 20)
  | txt {strings : List (List UInt8)} (type : h.type = .txt)
      (row : CharacterStrings strings (h.dataAt m start)) :
      InPlace m h start (.txt strings) (start + h.dataLength.toNat)
  | opt {o : Opt} (type : h.type = .opt) (packed : o.PackedInto h)
      (options : o.options = h.dataAt m start) :
      InPlace m h start (.opt o) (start + h.dataLength.toNat)
  | unknown (other : Registry.standard.find? h.type = none) :
      InPlace m h start (.unknown h.type (h.dataAt m start)) (start + h.dataLength.toNat)

/-! ## Reading the fields -/

section

variable {m : Octets} {pos next start stop : Nat} {h : RecordHeader} {data : RecordData}

theorem Reader.ip4_eq_ok_iff {ip : Ip4} :
    Reader.ip4 m pos = .ok ip next ↔ StandsAt m pos ip.octets.toList ∧ next = pos + 4 := by
  unfold Reader.ip4
  simp only [Reader.bind_eq_ok_iff, Reader.pure_eq_ok_iff,
    Reader.fixed_eq_ok_iff_of_pos (Nat.succ_pos 3)]
  grind

theorem Reader.ip6_eq_ok_iff {ip : Ip6} :
    Reader.ip6 m pos = .ok ip next ↔ StandsAt m pos ip.octets.toList ∧ next = pos + 16 := by
  unfold Reader.ip6
  simp only [Reader.bind_eq_ok_iff, Reader.pure_eq_ok_iff,
    Reader.fixed_eq_ok_iff_of_pos (Nat.succ_pos 15)]
  grind

theorem Soa.read_eq_ok_iff {s : Soa} :
    Soa.read m pos = .ok s next ↔ ∃ mid mid', s.primary.Occupies m pos mid ∧
      s.mailbox.Occupies m mid mid' ∧ StandsAt m mid' s.numberOctets ∧ next = mid' + 20 := by
  unfold Soa.read Soa.numberOctets
  simp only [Reader.bind_eq_ok_iff, Reader.pure_eq_ok_iff, Name.read_eq_ok_iff,
    Reader.u32_eq_ok_iff, List.flatMap_cons, List.flatMap_nil, standsAt_append_iff]
  constructor
  · rintro ⟨primary, mid, hprimary, mailbox, mid', hmailbox, serial, _, ⟨hserial, rfl⟩, refresh, _,
      ⟨hrefresh, rfl⟩, retry, _, ⟨hretry, rfl⟩, expire, _, ⟨hexpire, rfl⟩, minimum, _,
      ⟨hminimum, rfl⟩, rfl, rfl⟩
    exact ⟨mid, mid', hprimary, hmailbox,
      ⟨hserial, hrefresh, hretry, hexpire, hminimum, standsAt_nil _ _⟩, rfl⟩
  · rintro ⟨mid, mid', hprimary, hmailbox, ⟨hserial, hrefresh, hretry, hexpire, hminimum, -⟩, rfl⟩
    exact ⟨_, mid, hprimary, _, mid', hmailbox, _, _, ⟨hserial, rfl⟩, _, _, ⟨hrefresh, rfl⟩, _, _,
      ⟨hretry, rfl⟩, _, _, ⟨hexpire, rfl⟩, _, _, ⟨hminimum, rfl⟩, rfl, rfl⟩

theorem Opt.masked_ne_zero_iff (v : UInt32) :
    (v &&& dnssecOkMask != 0) = true ↔ 0x80 ≤ (v >>> 8).toUInt8.toNat := by
  have hmask : (v &&& dnssecOkMask).toNat = (v.toNat.testBit 15).toNat * 2 ^ 15 := by
    rw [← Nat.and_two_pow, UInt32.toNat_and]
    rfl
  rw [bne_iff_ne, ne_eq, ← UInt32.toNat_inj, hmask, Nat.testBit_eq_decide_div_mod_eq]
  simp only [UInt32.toNat_toUInt8, UInt32.toNat_shiftRight, UInt32.reduceToNat, Nat.reduceMod,
    Nat.shiftRight_eq_div_pow, Nat.reducePow]
  by_cases hbit : v.toNat / 32768 % 2 = 1
  · simp [hbit]
    omega
  · simp [hbit]
    omega

theorem Reader.take_eq_ok_iff_dataAt (hroom : pos + h.dataLength.toNat ≤ m.size)
    {octets : List UInt8} :
    Reader.take h.dataLength.toNat m pos = .ok octets next ↔
      octets = h.dataAt m pos ∧ next = pos + h.dataLength.toNat := by
  unfold Reader.take RecordHeader.dataAt
  rw [if_pos hroom, EStateM.Result.ok.injEq, eq_comm, @eq_comm _ next]

theorem Opt.read_eq_ok_iff (hroom : pos + h.dataLength.toNat ≤ m.size) {o : Opt} :
    Opt.read h m pos = .ok o next ↔
      o.PackedInto h ∧ o.options = h.dataAt m pos ∧ next = pos + h.dataLength.toNat := by
  unfold Opt.read
  simp only [Reader.bind_eq_ok_iff, Reader.pure_eq_ok_iff, Reader.take_eq_ok_iff_dataAt hroom]
  constructor
  · rintro ⟨_, _, ⟨rfl, rfl⟩, rfl, rfl⟩
    exact ⟨⟨rfl, _, _, rfl, masked_ne_zero_iff _⟩, rfl, rfl⟩
  · rintro ⟨⟨hsize, high, low, httl, hflag⟩, hoptions, rfl⟩
    refine ⟨_, _, ⟨rfl, rfl⟩, ?_, rfl⟩
    obtain ⟨size, extended, version, flag, options⟩ := o
    obtain ⟨rfl, rfl, rfl, rfl⟩ : _ ∧ _ ∧ _ ∧ _ := by simpa [Wire.octets32] using httl
    rw [Opt.mk.injEq]
    exact ⟨hsize.symm, rfl, rfl, Bool.eq_iff_iff.2 ((masked_ne_zero_iff _).trans hflag.symm),
      hoptions.symm⟩

/-! ## Standard decoders -/

namespace RecordData

theorem readA_eq_ok_iff :
    readA m pos = .ok data next ↔
      ∃ ip, (StandsAt m pos ip.octets.toList ∧ next = pos + 4) ∧ .a ip = data := by
  unfold readA
  simp only [Reader.map_eq_ok_iff, Reader.ip4_eq_ok_iff]

theorem readAaaa_eq_ok_iff :
    readAaaa m pos = .ok data next ↔
      ∃ ip, (StandsAt m pos ip.octets.toList ∧ next = pos + 16) ∧ .aaaa ip = data := by
  unfold readAaaa
  simp only [Reader.map_eq_ok_iff, Reader.ip6_eq_ok_iff]

theorem readMx_eq_ok_iff :
    readMx m pos = .ok data next ↔ ∃ preference exchange,
      StandsAt m pos (Wire.octets16 preference) ∧ exchange.Occupies m (pos + 2) next ∧
        .mx preference exchange = data := by
  unfold readMx
  simp only [Reader.bind_eq_ok_iff, Reader.pure_eq_ok_iff, Reader.u16_eq_ok_iff,
    Name.read_eq_ok_iff]
  constructor
  · rintro ⟨preference, _, ⟨hnumber, rfl⟩, exchange, _, hname, rfl, rfl⟩
    exact ⟨preference, exchange, hnumber, hname, rfl⟩
  · rintro ⟨preference, exchange, hnumber, hname, rfl⟩
    exact ⟨preference, _, ⟨hnumber, rfl⟩, exchange, _, hname, rfl, rfl⟩

end RecordData

theorem RecordData.inPlace_of_decoderFor (hroom : start + h.dataLength.toNat ≤ m.size)
    (hread : Registry.standard.decoderFor h.type h m start = .ok data stop) :
    data.InPlace m h start stop := by
  unfold Registry.decoderFor at hread
  cases hfind : Registry.standard.find? h.type with
  | none =>
      rw [hfind] at hread
      obtain ⟨hkeeps, -, rfl⟩ := readUnknown_eq_ok_iff.1 hread
      obtain rfl : data = .unknown h.type (h.dataAt m start) := hkeeps
      exact .unknown hfind
  | some decoder =>
      rw [hfind] at hread
      have hmem := Registry.mem_of_find? hfind
      simp only [Registry.standard, List.mem_cons, Prod.mk.injEq, List.not_mem_nil, or_false]
        at hmem
      -- One case for each entry, in the order of the registry.
      rcases hmem with ⟨htype, rfl⟩ | ⟨htype, rfl⟩ | ⟨htype, rfl⟩ | ⟨htype, rfl⟩ | ⟨htype, rfl⟩ |
        ⟨htype, rfl⟩ | ⟨htype, rfl⟩ | ⟨htype, rfl⟩ | ⟨htype, rfl⟩
      · obtain ⟨ip, ⟨hstands, rfl⟩, rfl⟩ := readA_eq_ok_iff.1 hread
        exact .a htype hstands
      · obtain ⟨host, hname, rfl⟩ := Reader.map_eq_ok_iff.1 hread
        exact .ns htype (Name.read_eq_ok_iff.1 hname)
      · obtain ⟨target, hname, rfl⟩ := Reader.map_eq_ok_iff.1 hread
        exact .cname htype (Name.read_eq_ok_iff.1 hname)
      · obtain ⟨s, hsoa, rfl⟩ := Reader.map_eq_ok_iff.1 hread
        obtain ⟨mid, mid', hprimary, hmailbox, hnumbers, rfl⟩ := Soa.read_eq_ok_iff.1 hsoa
        exact .soa htype hprimary hmailbox hnumbers
      · obtain ⟨target, hname, rfl⟩ := Reader.map_eq_ok_iff.1 hread
        exact .ptr htype (Name.read_eq_ok_iff.1 hname)
      · obtain ⟨preference, exchange, hnumber, hname, rfl⟩ := readMx_eq_ok_iff.1 hread
        exact .mx htype hnumber hname
      · obtain ⟨strings, row, rfl, rfl⟩ := (readTxt_eq_ok_iff_characterStrings hroom).1 hread
        exact .txt htype row
      · obtain ⟨ip, ⟨hstands, rfl⟩, rfl⟩ := readAaaa_eq_ok_iff.1 hread
        exact .aaaa htype hstands
      · obtain ⟨o, hopt, rfl⟩ := Reader.map_eq_ok_iff.1 hread
        obtain ⟨hpacked, hoptions, rfl⟩ := (Opt.read_eq_ok_iff hroom).1 hopt
        exact .opt htype hpacked hoptions

theorem RecordData.InPlace.decoderFor_eq (hroom : start + h.dataLength.toNat ≤ m.size)
    (inPlace : data.InPlace m h start stop) :
    Registry.standard.decoderFor h.type h m start = .ok data stop := by
  cases inPlace with
  | a type octets =>
      rw [type]
      exact readA_eq_ok_iff.2 ⟨_, ⟨octets, rfl⟩, rfl⟩
  | aaaa type octets =>
      rw [type]
      exact readAaaa_eq_ok_iff.2 ⟨_, ⟨octets, rfl⟩, rfl⟩
  | ns type name | cname type name | ptr type name =>
      rw [type]
      exact Reader.map_eq_ok_iff.2 ⟨_, Name.read_eq_ok_iff.2 name, rfl⟩
  | mx type number name =>
      rw [type]
      exact readMx_eq_ok_iff.2 ⟨_, _, number, name, rfl⟩
  | soa type primary mailbox numbers =>
      rw [type]
      exact Reader.map_eq_ok_iff.2
        ⟨_, Soa.read_eq_ok_iff.2 ⟨_, _, primary, mailbox, numbers, rfl⟩, rfl⟩
  | txt type row =>
      rw [type]
      exact (readTxt_eq_ok_iff_characterStrings hroom).2 ⟨_, row, rfl, rfl⟩
  | opt type packed options =>
      rw [type]
      exact Reader.map_eq_ok_iff.2 ⟨_, (Opt.read_eq_ok_iff hroom).2 ⟨packed, options, rfl⟩, rfl⟩
  | unknown other =>
      unfold Registry.decoderFor
      rw [other]
      exact readUnknown_eq_ok_iff.2 ⟨rfl, hroom, rfl⟩

theorem Registry.standard_decoderFor_eq_ok_iff (hroom : start + h.dataLength.toNat ≤ m.size) :
    standard.decoderFor h.type h m start = .ok data stop ↔ data.InPlace m h start stop :=
  ⟨RecordData.inPlace_of_decoderFor hroom, RecordData.InPlace.decoderFor_eq hroom⟩

/-! ## Whole records -/

/-- With the standard decoders a record is read exactly if its header can be read, as
many octets of data are there as that announces, the fields of its type stand from
the start of the data on, and they end in place where the data does. The record that
is read has these fields, with its names in full, and the reader stands behind its
data. -/
theorem Registry.standard_readRecord_eq_ok_iff (hsize : m.size < UInt64.size) {record : Record} :
    standard.readRecord m pos = .ok record next ↔
      ∃ start stop, record.header.Occupies m pos start ∧
        start + record.header.dataLength.toNat ≤ m.size ∧
        record.data.InPlace m record.header start stop ∧
        stop = start + record.header.dataLength.toNat ∧ next = stop := by
  constructor
  · intro hread
    obtain ⟨start, hheader, hdata, rfl, hroom⟩ :=
      (standard_advancesIn hsize).occupies_of_readRecord hread
    exact ⟨start, _, hheader, hroom, (standard_decoderFor_eq_ok_iff hroom).1 hdata, rfl, rfl⟩
  · rintro ⟨start, _, hheader, hroom, inPlace, rfl, rfl⟩
    exact readRecord_of_occupies
      ⟨start, hheader, (standard_decoderFor_eq_ok_iff hroom).2 inPlace, rfl, hroom⟩

end

/-- The exchange is a label in place and a name
elsewhere, and the owner is elsewhere altogether. -/
theorem Registry.standard_reads_compressed_exchange :
    let m : Octets :=
      #[1, 0x61, 0, 0xC0, 0, 0, 15, 0, 1, 0, 0, 0, 60, 0, 6, 0, 10, 1, 0x62, 0xC0, 0, 0xC0]
    let record : Record :=
      ⟨⟨⟨[[0x61]]⟩, .mx, .internet, 60, 6⟩, .mx 10 ⟨[[0x62], [0x61]]⟩⟩
    m.size < UInt64.size ∧ standard.readRecord m 3 = .ok record 21 := by
  intro m record
  have hsize : m.size < UInt64.size := by decide
  have howner : (⟨[[0x61]]⟩ : Name).Occupies m 3 5 :=
    occupies_of_pointer [] [[0x61]] 0xC0 0 (by decide) (by decide) (by decide) (by decide)
  have hheader : record.header.Occupies m 3 15 := ⟨5, howner, by decide, rfl⟩
  have hname : (⟨[[0x62], [0x61]]⟩ : Name).Occupies m 17 21 :=
    occupies_of_pointer [[0x62]] [[0x61]] 0xC0 0 (by decide) (by decide) (by decide) (by decide)
  have hnumber : StandsAt m 15 (Wire.octets16 10) := by decide
  exact ⟨hsize, (standard_readRecord_eq_ok_iff hsize).2
    ⟨15, 21, hheader, by decide, .mx rfl hnumber hname, rfl, rfl⟩⟩

end StubResolver
