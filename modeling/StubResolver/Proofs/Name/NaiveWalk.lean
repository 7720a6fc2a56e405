import Mathlib.Tactic.Choose
import StubResolver.Name.Wire

/-!
# Naive decompression

A name is read naively by walking through the message: label after label, and on at
the target of each pointer, without any memory of where the walk has been. Each rule
below says which octets have to stand at a position. The walk is deterministic, so
one from a given position either goes on forever or halts in one way only.
-/

namespace StubResolver.Name

/-! ## What may stand at a position -/

def StandsAt (m : Octets) (pos : Nat) (octets : List UInt8) : Prop :=
  octets <+: m.toList.drop pos

instance {m : Octets} {pos : Nat} {octets : List UInt8} : Decidable (StandsAt m pos octets) :=
  inferInstanceAs (Decidable (octets <+: m.toList.drop pos))

/-- The 14 bits of a pointer. -/
def pointerTarget (first second : UInt8) : Nat := first.toNat % 0x40 * 0x100 + second.toNat

def RootAt (m : Octets) (pos : Nat) : Prop := StandsAt m pos [0]

/-- A label, and the position behind it. A pointer to nowhere is an oversized label,
whose content begins with the pointer's second octet. -/
inductive LabelAt (m : Octets) (pos : Nat) : Label → Nat → Prop where
  | short {length : UInt8} {content : Label} (stands : StandsAt m pos (length :: content))
      (low : 1 ≤ length.toNat) (high : length.toNat ≤ 63)
      (complete : content.length = length.toNat) :
      LabelAt m pos content (pos + 1 + length.toNat)
  | oversized {first second : UInt8} {rest : List UInt8}
      (stands : StandsAt m pos (first :: second :: rest)) (mark : 0xC0 ≤ first.toNat)
      (beyond : m.size ≤ pointerTarget first second)
      (complete : (second :: rest).length = first.toNat) :
      LabelAt m pos (second :: rest) (pos + 1 + first.toNat)

inductive PointerAt (m : Octets) (pos : Nat) : Nat → Prop where
  | intro {first second : UInt8} (stands : StandsAt m pos [first, second])
      (mark : 0xC0 ≤ first.toNat) (within : pointerTarget first second < m.size) :
      PointerAt m pos (pointerTarget first second)

def ReservedAt (m : Octets) (pos : Nat) : Prop :=
  ∃ first, StandsAt m pos [first] ∧ 0x40 ≤ first.toNat ∧ first.toNat ≤ 0xBF

inductive RunsOutAt (m : Octets) (pos : Nat) : Prop where
  | first (short : m.size ≤ pos)
  | content {length : UInt8} (stands : StandsAt m pos [length]) (low : 1 ≤ length.toNat)
      (high : length.toNat ≤ 63) (short : m.size < pos + 1 + length.toNat)
  | second {first : UInt8} (stands : StandsAt m pos [first]) (mark : 0xC0 ≤ first.toNat)
      (short : m.size < pos + 2)
  | oversized {first second : UInt8} (stands : StandsAt m pos [first, second])
      (mark : 0xC0 ≤ first.toNat) (beyond : m.size ≤ pointerTarget first second)
      (short : m.size < pos + 1 + first.toNat)

/-! ## The walk -/

def Follows (m : Octets) (pos next : Nat) : Prop :=
  (∃ content, LabelAt m pos content next) ∨ PointerAt m pos next

/-- A walk from a position to another, with the labels met and the positions right
behind the pointers followed, both in order. -/
inductive Walk (m : Octets) : Nat → List Label → List Nat → Nat → Prop where
  | here (pos : Nat) : Walk m pos [] [] pos
  | label {pos next stop : Nat} {content : Label} {labels : List Label} {behind : List Nat}
      (first : LabelAt m pos content next) (rest : Walk m next labels behind stop) :
      Walk m pos (content :: labels) behind stop
  | pointer {pos target stop : Nat} {labels : List Label} {behind : List Nat}
      (first : PointerAt m pos target) (rest : Walk m target labels behind stop) :
      Walk m pos labels ((pos + 2) :: behind) stop

def NeverEnds (m : Octets) (pos : Nat) : Prop :=
  ∃ visits : Nat → Nat, visits 0 = pos ∧ ∀ n, Follows m (visits n) (visits (n + 1))

/-- The walk stops, and cannot or may not go on:
it may follow no more pointers than `allowed`. -/
def HaltsAfter (m : Octets) (allowed : Nat) (behind : List Nat) (stop : Nat) : Prop :=
  behind.length ≤ allowed ∧
    ((∀ next, ¬ Follows m stop next) ∨
      behind.length = allowed ∧ ∃ target, PointerAt m stop target)

/-! ## Reading octets -/

theorem standsAt_cons_iff {m : Octets} {pos : Nat} {o : UInt8} {os : List UInt8} :
    StandsAt m pos (o :: os) ↔ m[pos]? = some o ∧ StandsAt m (pos + 1) os := by
  unfold StandsAt
  by_cases h : pos < m.size
  · rw [List.drop_eq_getElem_cons (by simpa using h), List.cons_prefix_cons]
    simp [h, eq_comm]
  · have hdrop : m.toList.drop pos = [] := List.drop_eq_nil_of_le (by simpa using h)
    simp [hdrop, h]

theorem standsAt_nil (m : Octets) (pos : Nat) : StandsAt m pos [] := List.nil_prefix

theorem StandsAt.head {m : Octets} {pos : Nat} {o : UInt8} {os : List UInt8}
    (h : StandsAt m pos (o :: os)) : m[pos]? = some o :=
  (standsAt_cons_iff.1 h).1

@[simp] theorem standsAt_singleton {m : Octets} {pos : Nat} {o : UInt8} :
    StandsAt m pos [o] ↔ m[pos]? = some o := by
  simp [standsAt_cons_iff, standsAt_nil]

@[simp] theorem standsAt_pair {m : Octets} {pos : Nat} {o o' : UInt8} :
    StandsAt m pos [o, o'] ↔ m[pos]? = some o ∧ m[pos + 1]? = some o' := by
  simp [standsAt_cons_iff, standsAt_nil]

theorem StandsAt.length_le {m : Octets} {pos : Nat} {os : List UInt8} (h : StandsAt m pos os)
    (hne : os ≠ []) : pos + os.length ≤ m.size := by
  have hlength := List.IsPrefix.length_le h
  have hpos := List.length_pos_iff.2 hne
  have hsize : m.toList.length = m.size := rfl
  rw [List.length_drop] at hlength
  omega

theorem standsAt_iff_extract {m : Octets} {pos count : Nat} {os : List UInt8}
    (hcount : os.length = count) (hle : pos + count ≤ m.size) :
    StandsAt m pos os ↔ (m.extract pos (pos + count)).toList = os := by
  subst hcount
  unfold StandsAt
  rw [List.prefix_iff_eq_take, Array.toList_extract, List.extract_eq_take_drop,
    Nat.add_sub_cancel_left, eq_comm]

theorem standsAt_extract {m : Octets} {pos count : Nat} (hle : pos + count ≤ m.size) :
    StandsAt m pos (m.extract pos (pos + count)).toList :=
  (standsAt_iff_extract (by simp; omega) hle).2 rfl

/-! ## Pieces -/

theorem labelMark {length : UInt8} (low : 1 ≤ length.toNat) (high : length.toNat ≤ 63) :
    length ≠ 0 ∧ length < 0x40 := by
  refine ⟨?_, UInt8.lt_iff_toNat_lt.2 (Nat.lt_succ_of_le high)⟩
  rintro rfl
  simp at low

theorem pointerMark {first : UInt8} (mark : 0xC0 ≤ first.toNat) :
    first ≠ 0 ∧ ¬ first < 0x40 ∧ ¬ first < 0xC0 := by
  refine ⟨?_, ?_, ?_⟩
  · rintro rfl
    simp at mark
  · rw [UInt8.lt_iff_toNat_lt, Nat.not_lt]
    exact Nat.le_trans (by decide) mark
  · rw [UInt8.lt_iff_toNat_lt, Nat.not_lt]
    exact mark

theorem pointerTarget_eq {first second : UInt8} (mark : 0xC0 ≤ first.toNat) :
    (first.toNat - 0xC0) * 256 + second.toNat = pointerTarget first second := by
  have hbound := first.toNat_lt
  unfold pointerTarget
  omega

theorem labelAt_of_standsAt {m : Octets} {start : Nat} {content : Label}
    (h : StandsAt m start content) (hne : content ≠ []) :
    labelAt m start content.length = .ok (.label content (start + content.length)) := by
  have hle := h.length_le hne
  rw [labelAt, if_pos hle, (standsAt_iff_extract rfl hle).1 h]

theorem RootAt.pieceAt_eq {m : Octets} {pos : Nat} (h : RootAt m pos) :
    pieceAt m pos = .ok (.root (pos + 1)) := by
  simp [pieceAt, standsAt_singleton.1 h]

theorem LabelAt.pieceAt_eq {m : Octets} {pos next : Nat} {content : Label}
    (h : LabelAt m pos content next) : pieceAt m pos = .ok (.label content next) := by
  cases h with
  | @short length _ stands low high complete =>
      obtain ⟨first, rest⟩ := standsAt_cons_iff.1 stands
      have hne : content ≠ [] := List.ne_nil_of_length_pos (by omega)
      obtain ⟨hzero, hlow⟩ := labelMark low high
      simp only [pieceAt, first, hzero, hlow, if_true, if_false]
      rw [← complete]
      exact labelAt_of_standsAt rest hne
  | @oversized first second rest stands mark beyond complete =>
      obtain ⟨hfirst, hrest⟩ := standsAt_cons_iff.1 stands
      obtain ⟨hzero, hlow, hmark⟩ := pointerMark mark
      rw [← pointerTarget_eq mark, ← Nat.not_lt] at beyond
      simp only [pieceAt, hfirst, hzero, hlow, hmark, hrest.head, beyond, if_false]
      rw [← complete]
      exact labelAt_of_standsAt hrest (List.cons_ne_nil _ _)

theorem PointerAt.pieceAt_eq {m : Octets} {pos target : Nat} (h : PointerAt m pos target) :
    pieceAt m pos = .ok (.pointer target (pos + 2)) := by
  obtain ⟨stands, mark, within⟩ := h
  rename_i first second
  obtain ⟨hfirst, hsecond⟩ := standsAt_pair.1 stands
  obtain ⟨hzero, hlow, hmark⟩ := pointerMark mark
  rw [← pointerTarget_eq mark] at within ⊢
  simp only [pieceAt, hfirst, hzero, hlow, hmark, hsecond, within, if_true, if_false]

theorem ReservedAt.pieceAt_eq {m : Octets} {pos : Nat} (h : ReservedAt m pos) :
    pieceAt m pos = .error (.malformedName .labelType) := by
  obtain ⟨first, stands, low, high⟩ := h
  have hzero : first ≠ 0 := by
    rintro rfl
    simp at low
  have hlow : ¬ first < 0x40 := by simpa [UInt8.lt_iff_toNat_lt] using low
  have hmark : first < 0xC0 := by
    rw [UInt8.lt_iff_toNat_lt]
    simpa using by omega
  simp only [pieceAt, standsAt_singleton.1 stands, hzero, hlow, hmark, if_true, if_false]

theorem RunsOutAt.pieceAt_eq {m : Octets} {pos : Nat} (h : RunsOutAt m pos) :
    pieceAt m pos = .error .shortInput := by
  cases h with
  | first short => simp [pieceAt, Array.getElem?_eq_none short]
  | @content length stands low high short =>
      obtain ⟨hzero, hlow⟩ := labelMark low high
      have hshort : ¬ pos + 1 + length.toNat ≤ m.size := by omega
      simp only [pieceAt, standsAt_singleton.1 stands, hzero, hlow, labelAt, hshort, if_true,
        if_false]
  | second stands mark short =>
      obtain ⟨hzero, hlow, hmark⟩ := pointerMark mark
      have hnone : m[pos + 1]? = none := Array.getElem?_eq_none (by omega)
      simp only [pieceAt, standsAt_singleton.1 stands, hzero, hlow, hmark, hnone, if_false]
  | oversized stands mark beyond short =>
      obtain ⟨hfirst, hsecond⟩ := standsAt_pair.1 stands
      obtain ⟨hzero, hlow, hmark⟩ := pointerMark mark
      rw [← pointerTarget_eq mark, ← Nat.not_lt] at beyond
      have hshort := Nat.not_le.2 short
      simp only [pieceAt, hfirst, hzero, hlow, hmark, hsecond, beyond, labelAt, hshort, if_false]

theorem exists_piece (m : Octets) (pos : Nat) :
    RootAt m pos ∨ (∃ content next, LabelAt m pos content next) ∨
      (∃ target, PointerAt m pos target) ∨ ReservedAt m pos ∨ RunsOutAt m pos := by
  cases hfirst : m[pos]? with
  | none => exact .inr (.inr (.inr (.inr (.first (Array.getElem?_eq_none_iff.1 hfirst)))))
  | some first =>
      have stands : StandsAt m pos [first] := standsAt_singleton.2 hfirst
      have hpos : pos < m.size := (Array.getElem?_eq_some_iff.1 hfirst).1
      by_cases hzero : first.toNat = 0
      · left
        obtain rfl : first = 0 := UInt8.toNat_inj.1 hzero
        exact stands
      right
      by_cases hlow : first.toNat ≤ 63
      · have low : 1 ≤ first.toNat := Nat.pos_of_ne_zero hzero
        by_cases hfits : pos + 1 + first.toNat ≤ m.size
        · left
          refine ⟨_, _, .short (standsAt_cons_iff.2 ⟨hfirst, standsAt_extract hfits⟩) low hlow ?_⟩
          simp
          omega
        · exact .inr (.inr (.inr (.content stands low hlow (Nat.not_le.1 hfits))))
      by_cases hreserved : first.toNat ≤ 0xBF
      · exact .inr (.inr (.inl ⟨first, stands, Nat.not_le.1 hlow, hreserved⟩))
      have mark : 0xC0 ≤ first.toNat := Nat.not_le.1 hreserved
      cases hsecond : m[pos + 1]? with
      | none =>
          have hend := Array.getElem?_eq_none_iff.1 hsecond
          exact .inr (.inr (.inr (.second stands mark (by omega))))
      | some second =>
          have pair : StandsAt m pos [first, second] := standsAt_pair.2 ⟨hfirst, hsecond⟩
          by_cases hwithin : pointerTarget first second < m.size
          · exact .inr (.inl ⟨_, .intro pair mark hwithin⟩)
          have beyond := Nat.not_lt.1 hwithin
          by_cases hfits : pos + 1 + first.toNat ≤ m.size
          · left
            have content := standsAt_extract hfits
            have hlength : (m.extract (pos + 1) (pos + 1 + first.toNat)).toList.length =
                first.toNat := by
              simp
              omega
            obtain ⟨o, rest, hcons⟩ := List.exists_cons_of_length_pos
              (Nat.lt_of_lt_of_eq (by omega) hlength.symm)
            rw [hcons] at content hlength
            obtain rfl : o = second := Option.some.inj (content.head.symm.trans hsecond)
            exact ⟨_, _, .oversized (standsAt_cons_iff.2 ⟨hfirst, content⟩) mark beyond hlength⟩
          · exact .inr (.inr (.inr (.oversized pair mark beyond (Nat.not_le.1 hfits))))

def Describes (m : Octets) (pos : Nat) : Except ParseError Piece → Prop
  | .ok (.root next) => RootAt m pos ∧ next = pos + 1
  | .ok (.label content next) => LabelAt m pos content next
  | .ok (.pointer target next) => PointerAt m pos target ∧ next = pos + 2
  | .error e =>
    ReservedAt m pos ∧ e = .malformedName .labelType ∨ RunsOutAt m pos ∧ e = .shortInput

theorem pieceAt_describes (m : Octets) (pos : Nat) : Describes m pos (pieceAt m pos) := by
  rcases exists_piece m pos with h | ⟨_, _, h⟩ | ⟨_, h⟩ | h | h <;> rw [h.pieceAt_eq]
  · exact ⟨h, rfl⟩
  · exact h
  · exact ⟨h, rfl⟩
  · exact .inl ⟨h, rfl⟩
  · exact .inr ⟨h, rfl⟩

/-! ## Determinism -/

theorem Follows.unique {m : Octets} {pos next next' : Nat} (h : Follows m pos next)
    (h' : Follows m pos next') : next = next' := by
  rcases h with ⟨content, h⟩ | h <;> rcases h' with ⟨content', h'⟩ | h' <;>
    have heq := h.pieceAt_eq.symm.trans h'.pieceAt_eq <;> simp at heq
  · exact heq.2
  · exact heq

theorem not_follows {m : Octets} {pos : Nat}
    (hlabel : ∀ content next, pieceAt m pos ≠ .ok (.label content next))
    (hpointer : ∀ target next, pieceAt m pos ≠ .ok (.pointer target next)) (next : Nat) :
    ¬ Follows m pos next := by
  rintro (⟨content, h⟩ | h)
  · exact hlabel _ _ h.pieceAt_eq
  · exact hpointer _ _ h.pieceAt_eq

theorem RootAt.stuck {m : Octets} {pos : Nat} (h : RootAt m pos) :
    ∀ next, ¬ Follows m pos next :=
  not_follows (by simp [h.pieceAt_eq]) (by simp [h.pieceAt_eq])

theorem ReservedAt.stuck {m : Octets} {pos : Nat} (h : ReservedAt m pos) :
    ∀ next, ¬ Follows m pos next :=
  not_follows (by simp [h.pieceAt_eq]) (by simp [h.pieceAt_eq])

theorem RunsOutAt.stuck {m : Octets} {pos : Nat} (h : RunsOutAt m pos) :
    ∀ next, ¬ Follows m pos next :=
  not_follows (by simp [h.pieceAt_eq]) (by simp [h.pieceAt_eq])

theorem NeverEnds.next {m : Octets} {pos next : Nat} (h : NeverEnds m pos)
    (hnext : Follows m pos next) : NeverEnds m next := by
  obtain ⟨visits, hzero, hsteps⟩ := h
  refine ⟨fun n => visits (n + 1), ?_, fun n => hsteps (n + 1)⟩
  have hfirst := hsteps 0
  rw [hzero] at hfirst
  exact hfirst.unique hnext

theorem NeverEnds.walk {m : Octets} {pos stop : Nat} {labels : List Label} {behind : List Nat}
    (h : NeverEnds m pos) (walk : Walk m pos labels behind stop) : NeverEnds m stop := by
  induction walk with
  | here => exact h
  | label first rest ih => exact ih (h.next (.inl ⟨_, first⟩))
  | pointer first rest ih => exact ih (h.next (.inr first))

theorem NeverEnds.not_stuck {m : Octets} {pos : Nat} (h : NeverEnds m pos) :
    ¬ ∀ next, ¬ Follows m pos next := by
  obtain ⟨visits, rfl, hsteps⟩ := h
  exact fun hstuck => hstuck _ (hsteps 0)

theorem neverEnds_of_closed {m : Octets} (positions : Nat → Prop)
    (hclosed : ∀ pos, positions pos → ∃ next, Follows m pos next ∧ positions next) {pos : Nat}
    (hpos : positions pos) : NeverEnds m pos := by
  choose next hfollows hnext using hclosed
  let advance : {p // positions p} → {p // positions p} := fun p => ⟨_, hnext p.1 p.2⟩
  let visits : Nat → {p // positions p} := Nat.rec ⟨pos, hpos⟩ fun _ => advance
  exact ⟨fun n => (visits n).1, rfl, fun n => hfollows _ (visits n).2⟩

theorem HaltsAfter.not_labelAt {m : Octets} {allowed stop next : Nat} {behind : List Nat}
    {content : Label} (h : HaltsAfter m allowed behind stop) :
    ¬ LabelAt m stop content next := by
  intro hlabel
  rcases h.2 with hstuck | ⟨-, target, hpointer⟩
  · exact hstuck next (.inl ⟨content, hlabel⟩)
  · have heq := hlabel.pieceAt_eq.symm.trans hpointer.pieceAt_eq
    simp at heq

theorem HaltsAfter.allowed_of_pointerAt {m : Octets} {allowed stop target : Nat}
    {behind : List Nat} (h : HaltsAfter m allowed behind stop)
    (hpointer : PointerAt m stop target) :
    behind.length = allowed := by
  rcases h.2 with hstuck | ⟨hall, -⟩
  · exact (hstuck target (.inr hpointer)).elim
  · exact hall

theorem HaltsAfter.of_cons {m : Octets} {allowed stop first : Nat} {behind : List Nat}
    (h : HaltsAfter m allowed (first :: behind) stop) :
    0 < allowed ∧ HaltsAfter m (allowed - 1) behind stop := by
  obtain ⟨hle, h⟩ := h
  rw [List.length_cons] at hle h
  refine ⟨by omega, by omega, h.imp_right ?_⟩
  rintro ⟨hall, hpointer⟩
  exact ⟨by omega, hpointer⟩

theorem Walk.unique {m : Octets} {pos stop stop' allowed : Nat} {labels labels' : List Label}
    {behind behind' : List Nat} (walk : Walk m pos labels behind stop)
    (halts : HaltsAfter m allowed behind stop) (walk' : Walk m pos labels' behind' stop')
    (halts' : HaltsAfter m allowed behind' stop') :
    labels = labels' ∧ behind = behind' ∧ stop = stop' := by
  induction walk generalizing labels' behind' allowed with
  | here pos =>
      cases walk' with
      | here => exact ⟨rfl, rfl, rfl⟩
      | label first' rest' => exact (halts.not_labelAt first').elim
      | pointer first' rest' =>
          have hnone := halts.allowed_of_pointerAt first'
          have hsome := halts'.of_cons.1
          rw [← hnone] at hsome
          exact (Nat.lt_irrefl _ hsome).elim
  | label first rest ih =>
      cases walk' with
      | here => exact (halts'.not_labelAt first).elim
      | label first' rest' =>
          have heq := first.pieceAt_eq.symm.trans first'.pieceAt_eq
          simp only [Except.ok.injEq, Piece.label.injEq] at heq
          obtain ⟨rfl, rfl⟩ := heq
          obtain ⟨rfl, rfl, rfl⟩ := ih halts rest' halts'
          exact ⟨rfl, rfl, rfl⟩
      | pointer first' rest' =>
          have heq := first.pieceAt_eq.symm.trans first'.pieceAt_eq
          simp at heq
  | pointer first rest ih =>
      cases walk' with
      | here =>
          have hnone := halts'.allowed_of_pointerAt first
          have hsome := halts.of_cons.1
          rw [← hnone] at hsome
          exact (Nat.lt_irrefl _ hsome).elim
      | label first' rest' =>
          have heq := first.pieceAt_eq.symm.trans first'.pieceAt_eq
          simp at heq
      | pointer first' rest' =>
          obtain rfl := (Follows.unique (.inr first) (.inr first'))
          obtain ⟨rfl, rfl, rfl⟩ := ih halts.of_cons.2 rest' halts'.of_cons.2
          exact ⟨rfl, rfl, rfl⟩

end StubResolver.Name
