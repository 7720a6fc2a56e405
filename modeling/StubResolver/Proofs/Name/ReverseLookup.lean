import StubResolver.Proofs.Name.Lengths
import StubResolver.Proofs.Name.Rereading
import StubResolver.Proofs.Name.Reversed

/-!
# What the names of addresses tell

From its top down, the name of an address spells the address: the octets in decimal,
or the half octets in hexadecimal. So the address can be read off its name, on the
wire and as a text, and no other address has that name.
-/

namespace StubResolver.Name

open Text

/-! ## Spelling an address -/

def numeral (base n : Nat) : Label := octetsOf (String.ofList (Nat.toDigits base n))

/-- What the labels of an address should be, from the top down. -/
def addressLabels : IpAddress → List Label
  | .v4 ip =>
    octetsOf "arpa" :: octetsOf "in-addr" :: ip.octets.toList.map fun o => numeral 10 o.toNat
  | .v6 ip =>
    octetsOf "arpa" :: octetsOf "ip6" ::
      ip.octets.toList.flatMap fun o => [numeral 16 (o.toNat / 16), numeral 16 (o.toNat % 16)]

/-! ## Reading it back -/

def numeralValue (base : Nat) (l : Label) : Nat :=
  l.foldl (fun value o => value * base + if isDigit o then digitValue o else o.toNat - 0x57) 0

def octetsOfNibbles : List Label → List UInt8
  | high :: low :: rest =>
    (numeralValue 16 high * 16 + numeralValue 16 low).toUInt8 :: octetsOfNibbles rest
  | _ => []

/-- The address that a name spells below one of the two domains for that. -/
def addressOf? (n : Name) : Option IpAddress :=
  match n.labels.reverse with
  | top :: domain :: rest =>
    if top ≠ octetsOf "arpa" then none
    else if domain = octetsOf "in-addr" then
      (vectorOf? 4 (rest.map fun l => (numeralValue 10 l).toUInt8)).map fun octets => .v4 ⟨octets⟩
    else if domain = octetsOf "ip6" then
      (vectorOf? 16 (octetsOfNibbles rest)).map fun octets => .v6 ⟨octets⟩
    else none
  | _ => none

/-! ## Labels -/

theorem asciiLabel_eq_octetsOf {cs : List Char} (h : (cs.all fun c => c.toNat < 128) = true) :
    asciiLabel cs = octetsOf (String.ofList cs) :=
  (octetsOf_ofList_of_ascii (by simpa using h)).symm

theorem decimalLabel_eq_numeral (o : UInt8) : decimalLabel o = numeral 10 o.toNat := by
  have hdigits : ∀ o : UInt8, ((Nat.toDigits 10 o.toNat).all fun c => c.toNat < 128) = true :=
    forall_octet (by decide +kernel)
  exact asciiLabel_eq_octetsOf (hdigits o)

theorem hexDigit_eq_numeral (n : Nat) : asciiLabel [hexDigit n] = numeral 16 (n % 16) := by
  have hlt : n % 16 < 16 := Nat.mod_lt _ (by decide)
  have hascii : ∀ k < 16, ([Nat.digitChar k].all fun c => c.toNat < 128) = true := by decide
  rw [numeral, Nat.toDigits_of_lt_base hlt]
  exact asciiLabel_eq_octetsOf (hascii _ hlt)

theorem nibbleLabels_eq_numerals (o : UInt8) :
    nibbleLabels o = [numeral 16 (o.toNat % 16), numeral 16 (o.toNat / 16)] := by
  have hhigh : o.toNat / 16 % 16 = o.toNat / 16 := by
    have := o.toNat_lt
    omega
  rw [nibbleLabels, hexDigit_eq_numeral, hexDigit_eq_numeral, hhigh]

theorem arpa_eq : arpa = octetsOf "arpa" := asciiLabel_eq_octetsOf (by decide)

theorem inAddr_eq : inAddr = octetsOf "in-addr" := asciiLabel_eq_octetsOf (by decide)

theorem ip6Label_eq : ip6Label = octetsOf "ip6" := asciiLabel_eq_octetsOf (by decide)

theorem reverse_labels_reverse (ip : IpAddress) :
    (reverse ip).labels.reverse = addressLabels ip := by
  cases ip with
  | v4 ip =>
      simp only [reverse, addressLabels, List.reverse_append, List.map_reverse,
        List.reverse_reverse, ← arpa_eq, ← inAddr_eq, ← decimalLabel_eq_numeral]
      rfl
  | v6 ip =>
      simp only [reverse, addressLabels, List.reverse_append, List.reverse_flatMap,
        List.reverse_reverse, ← arpa_eq, ← ip6Label_eq, Function.comp_def, nibbleLabels_eq_numerals]
      rfl

/-! ## Values -/

theorem numeralValue_decimal (o : UInt8) : (numeralValue 10 (numeral 10 o.toNat)).toUInt8 = o := by
  rw [← decimalLabel_eq_numeral]
  revert o
  exact forall_octet (by decide +kernel)

theorem numeralValue_nibbles (o : UInt8) :
    (numeralValue 16 (numeral 16 (o.toNat / 16)) * 16
      + numeralValue 16 (numeral 16 (o.toNat % 16))).toUInt8 = o := by
  have hvalue (n : Nat) (h : n < 16) : numeralValue 16 (numeral 16 n) = n := by
    have hdigits : ∀ k < 16, numeralValue 16 (asciiLabel [hexDigit k]) = k := by decide
    have hlabel := hexDigit_eq_numeral n
    rw [Nat.mod_eq_of_lt h] at hlabel
    rw [← hlabel, hdigits n h]
  have ho := o.toNat_lt
  rw [hvalue _ (by omega), hvalue _ (by omega), Nat.div_add_mod']
  exact UInt8.ofNat_toNat

theorem octetsOfNibbles_numerals (os : List UInt8) :
    octetsOfNibbles (os.flatMap fun o => [numeral 16 (o.toNat / 16), numeral 16 (o.toNat % 16)]) =
      os := by
  induction os with
  | nil => rfl
  | cons o os ih =>
      rw [List.flatMap_cons, List.cons_append, List.singleton_append, octetsOfNibbles, ih,
        numeralValue_nibbles]

theorem addressOf?_reverse (ip : IpAddress) : addressOf? (reverse ip) = some ip := by
  unfold addressOf?
  rw [reverse_labels_reverse]
  cases ip with
  | v4 ip =>
      have hoctets : (ip.octets.toList.map fun o => numeral 10 o.toNat).map
          (fun l => (numeralValue 10 l).toUInt8) = ip.octets.toList := by
        simp [List.map_map, Function.comp_def, numeralValue_decimal]
      simp [addressLabels, hoctets, vectorOf?_toList]
  | v6 ip =>
      have hdomain : octetsOf "ip6" ≠ octetsOf "in-addr" := by
        rw [ne_eq, octetsOf_inj]
        decide
      simp [addressLabels, hdomain, octetsOfNibbles_numerals, vectorOf?_toList]

/-! ## What all labels have in common -/

theorem forall_labels_reverse {P : Label → Prop} (hdecimal : ∀ o, P (decimalLabel o))
    (hnibbles : ∀ o, ∀ l ∈ nibbleLabels o, P l) (hinAddr : P inAddr) (hip6 : P ip6Label)
    (harpa : P arpa) (ip : IpAddress) : ∀ l ∈ (reverse ip).labels, P l := by
  cases ip with
  | v4 ip =>
      refine List.forall_mem_append.2 ⟨List.forall_mem_map.2 fun o _ => hdecimal o, ?_⟩
      exact List.forall_mem_cons.2 ⟨hinAddr, List.forall_mem_singleton.2 harpa⟩
  | v6 ip =>
      refine List.forall_mem_append.2 ⟨fun l hl => ?_, ?_⟩
      · obtain ⟨o, -, hl⟩ := List.mem_flatMap.1 hl
        exact hnibbles o l hl
      · exact List.forall_mem_cons.2 ⟨hip6, List.forall_mem_singleton.2 harpa⟩

theorem dot_not_mem_reverse (ip : IpAddress) : ∀ l ∈ (reverse ip).labels, dot ∉ l :=
  forall_labels_reverse (forall_octet (by decide +kernel)) (forall_octet (by decide +kernel))
    (by decide) (by decide) (by decide) ip

theorem caseFold_reverse (ip : IpAddress) : (reverse ip).caseFold = reverse ip := by
  have hlower : ∀ l ∈ (reverse ip).labels, lowerOctets l = l :=
    forall_labels_reverse (forall_octet (by decide +kernel)) (forall_octet (by decide +kernel))
      (by decide) (by decide) (by decide) ip
  rw [caseFold, List.map_congr_left hlower, List.map_id']

theorem reverse_same_iff (ip ip' : IpAddress) :
    (reverse ip).same (reverse ip') = true ↔ ip = ip' := by
  rw [same, decide_eq_true_iff, caseFold_reverse, caseFold_reverse]
  constructor
  · intro h
    have haddress := addressOf?_reverse ip
    rw [h, addressOf?_reverse] at haddress
    exact (Option.some.inj haddress).symm
  · exact congrArg reverse

/-- The name of an address is one that can be made from its labels. From the top down
these are `arpa`, one of the two domains, and the parts of the address in their
order. The address can be read off them, and only the same address has the same name.
Where there is room for it, the name is written as the same octets, from which it is
read again, and it is also read again from its text. -/
theorem reverse_tells_address (ip : IpAddress) :
    ofLabels (reverse ip).labels = .ok (reverse ip) ∧
    (reverse ip).labels.reverse = addressLabels ip ∧
    addressOf? (reverse ip) = some ip ∧
    (∀ ip', (reverse ip).same (reverse ip') = true ↔ ip = ip') ∧
    (∃ os : List UInt8,
      (∀ c : Composer, (reverse ip).write.runOn c =
        if c.octets.size + os.length ≤ c.capacity then (.ok (), { c with octets := c.octets ++ os })
        else (.error .shortBuffer, c)) ∧
      ∀ before after : Octets,
        read.runAt (before ++ os ++ after) before.size =
          (.ok (reverse ip), before.size + os.length)) ∧
    ofText (reverse ip).text = .ok (reverse ip) := by
  have hvalid := ofLabels_reverse ip
  have hnone : labelsError? (reverse ip).labels = none := (ofLabels_eq_ok_iff.1 hvalid).1
  refine ⟨hvalid, reverse_labels_reverse ip, addressOf?_reverse ip, reverse_same_iff ip,
    ⟨Writer.labelOctets (reverse ip).labels, fun c => ?_, fun before after => ?_⟩,
    ofText_text_of_no_dot hvalid (dot_not_mem_reverse ip)⟩
  · rw [Name.write, Writer.runOn_labels, hnone]
  · rw [length_labelOctets]
    exact read_labelOctets (labelsError?_eq_none_iff.1 hnone).1 before after

example :
    let ip : Ip6 :=
      ⟨#v[0x20, 1, 0x0D, 0xB8, 0, 0, 0, 0, 0xFE, 0xDC, 0xBA, 0x98, 0x76, 0x54, 0x32, 0x10]⟩
    (reverse (.v6 ip)).text =
      "0.1.2.3.4.5.6.7.8.9.a.b.c.d.e.f.0.0.0.0.0.0.0.0.8.b.d.0.1.0.0.2.ip6.arpa." := by
  decide

end StubResolver.Name
