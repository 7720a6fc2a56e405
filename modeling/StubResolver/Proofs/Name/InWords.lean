import StubResolver.Proofs.Wire.Words

/-!
# Names in words

The machine takes a name label by label. It finds out that a pointer leads nowhere
only when it has taken both octets of it, and goes back by one then.
-/

namespace StubResolver.WordReader

open Name

inductive NamePiece where
  | root
  | label (content : Label)
  | pointer (target : UInt64)

def label (count : UInt64) : WordReader NamePiece := do
  let content ← take count
  return .label content

def pointerTarget (first second : UInt8) : UInt64 :=
  ((first &&& 0x3F).toUInt64 <<< 8) ||| second.toUInt64

def pointer (first : UInt8) : WordReader NamePiece := do
  let second ← u8
  let length ← size
  if pointerTarget first second < length then return .pointer (pointerTarget first second)
  else
    retreat 1
    label first.toUInt64

def namePiece : WordReader NamePiece := do
  let first ← u8
  if first = 0 then return .root
  else if first < 0x40 then label first.toUInt64
  else if first < 0xC0 then fail (.malformedName .labelType)
  else pointer first

structure NameProgress where
  followed : List UInt64
  -- The position behind the first pointer.
  resume : Option UInt64
  labels : List Label

def nameTurn (progress : NameProgress) : WordReader (NameProgress ⊕ (List Label × UInt64)) := do
  let piece ← namePiece
  let behind ← position
  match piece with
  | .root => return .inr (progress.labels.reverse, progress.resume.getD behind)
  | .label content => return .inl { progress with labels := content :: progress.labels }
  | .pointer target =>
    if maxPointers ≤ progress.followed.length then fail (.malformedName .tooManyPointers)
    else if target ∈ progress.followed then fail (.malformedName .pointerLoop)
    else
      seek target
      return .inl ⟨target :: progress.followed, some (progress.resume.getD behind), progress.labels⟩

def labelsFrom (progress : NameProgress) : WordReader (List Label × UInt64) :=
  repeatM nameTurn progress

def name : WordReader Name := fun m pos =>
  match labelsFrom ⟨[], none, []⟩ m pos with
  | none => none
  | some (.error e, _) => some (.error e, pos)
  | some (.ok (labels, next), _) => (do seek next; return ⟨labels⟩ : WordReader Name) m pos

/-! ## Pieces -/

def PieceAgrees (m : Octets) :
    Except ParseError Piece → Option (Except ParseError NamePiece × UInt64) → Prop
  | .ok (.root next), run => next ≤ m.size ∧ run = some (.ok .root, next.toUInt64)
  | .ok (.label content next), run =>
      next ≤ m.size ∧ run = some (.ok (.label content), next.toUInt64)
  | .ok (.pointer target next), run => target < m.size ∧ next ≤ m.size ∧
      run = some (.ok (.pointer target.toUInt64), next.toUInt64)
  | .error e, run => ∃ stop, run = some (.error e, stop)

theorem toNat_pointerTarget {first : UInt8} (mark : 0xC0 ≤ first.toNat) (second : UInt8) :
    (pointerTarget first second).toNat = (first.toNat - 0xC0) * 256 + second.toNat := by
  have hfirst := first.toNat_lt
  have hsecond := second.toNat_lt
  have hmask : (first &&& 0x3F).toNat = first.toNat % 0x40 :=
    Nat.and_two_pow_sub_one_eq_mod first.toNat 6
  have hhigh : ((first &&& 0x3F).toUInt64 <<< 8).toNat = (first.toNat - 0xC0) * 256 := by
    rw [UInt64.toNat_shiftLeft, UInt8.toNat_toUInt64, hmask, Nat.shiftLeft_eq]
    exact (Nat.mod_eq_of_lt (by simp; omega)).trans (by simp; omega)
  rw [pointerTarget, UInt64.toNat_or, hhigh, UInt8.toNat_toUInt64]
  exact Wire.or_eq_add 8 (first.toNat - 0xC0) rfl hsecond

section

variable {m : Octets} {pos : Nat} (hsize : m.size < UInt64.size)
include hsize

theorem run_u8_of_some {o : UInt8} (h : m[pos]? = some o) :
    u8 m pos.toUInt64 = some (.ok o, (pos + 1).toUInt64) := by
  obtain ⟨hlt, rfl⟩ := Array.getElem?_eq_some_iff.1 h
  have hread : Reader.u8 m pos = .ok m[pos] (pos + 1) := by
    unfold Reader.u8
    rw [Reader.bind_of_ok (dif_pos hlt)]
    simp only [Vector.getElem_ofFn]
    rfl
  exact ((agrees_u8 hsize pos hlt.le).of_ok hread).1

theorem run_u8_of_none (hpos : pos ≤ m.size) (h : m[pos]? = none) :
    u8 m pos.toUInt64 = some (.error .shortInput, pos.toUInt64) := by
  have hshort : m.size < pos + 1 := Nat.lt_succ_of_le (Array.getElem?_eq_none_iff.1 h)
  have hread : Reader.u8 m pos = .error .shortInput pos :=
    Reader.bind_eq_error_iff.2 (.inl (Reader.fixed_eq_error_iff.2 ⟨hshort, rfl, rfl⟩))
  exact ((agrees_u8 hsize pos hpos).of_error hread).1

theorem label_agrees (hpos : pos ≤ m.size) (length : UInt8) :
    PieceAgrees m (labelAt m pos length.toNat) (label length.toUInt64 m pos.toUInt64) := by
  have htake := agrees_take hsize length.toUInt64 pos hpos
  rw [UInt8.toNat_toUInt64] at htake
  unfold labelAt label
  by_cases hroom : pos + length.toNat ≤ m.size
  · obtain ⟨hrun, hnext⟩ := htake.of_ok (if_pos hroom)
    rw [if_pos hroom, bind_of_ok hrun]
    exact ⟨hnext, rfl⟩
  · rw [if_neg hroom, bind_of_error (htake.of_error (if_neg hroom)).1]
    exact ⟨_, rfl⟩

theorem pointer_agrees {first second : UInt8} (mark : 0xC0 ≤ first.toNat)
    (hsecond : m[pos]? = some second) :
    PieceAgrees m
      (if (first.toNat - 0xC0) * 256 + second.toNat < m.size then
        .ok (.pointer ((first.toNat - 0xC0) * 256 + second.toNat) (pos + 1))
      else labelAt m pos first.toNat)
      (pointer first m pos.toUInt64) := by
  have hlt : pos < m.size := (Array.getElem?_eq_some_iff.1 hsecond).1
  have htarget := toNat_pointerTarget mark second
  have hrun : size m (pos + 1).toUInt64 = some (.ok m.size.toUInt64, (pos + 1).toUInt64) := rfl
  have hwithin : pointerTarget first second < m.size.toUInt64 ↔
      (first.toNat - 0xC0) * 256 + second.toNat < m.size := by
    rw [UInt64.lt_iff_toNat_lt, htarget, toNat_toUInt64 hsize (Nat.le_refl _)]
  unfold pointer
  rw [bind_of_ok (run_u8_of_some hsize hsecond), bind_of_ok hrun]
  by_cases hfound : (first.toNat - 0xC0) * 256 + second.toNat < m.size
  · have hword : pointerTarget first second =
        ((first.toNat - 0xC0) * 256 + second.toNat).toUInt64 := by
      rw [← UInt64.toNat_inj, htarget, toNat_toUInt64 hsize hfound.le]
    rw [if_pos hfound, if_pos (hwithin.2 hfound), hword]
    exact ⟨hfound, hlt, rfl⟩
  · have hback : retreat 1 m (pos + 1).toUInt64 = some (.ok (), pos.toUInt64) := by
      have hdifference := difference?_of_le hsize (Nat.le_add_left 1 pos) hlt
      rw [Nat.add_sub_cancel] at hdifference
      rw [retreat, show (1 : UInt64) = (1 : Nat).toUInt64 from rfl, hdifference]
    rw [if_neg hfound, if_neg (mt hwithin.1 hfound), bind_of_ok hback]
    exact label_agrees hsize hlt.le first

theorem namePiece_agrees (hpos : pos ≤ m.size) :
    PieceAgrees m (pieceAt m pos) (namePiece m pos.toUInt64) := by
  unfold namePiece pieceAt
  cases hfirst : m[pos]? with
  | none =>
      rw [bind_of_error (run_u8_of_none hsize hpos hfirst)]
      exact ⟨_, rfl⟩
  | some first =>
      have hlt : pos < m.size := (Array.getElem?_eq_some_iff.1 hfirst).1
      rw [bind_of_ok (run_u8_of_some hsize hfirst)]
      by_cases hroot : first = 0
      · simp only [if_pos hroot]
        exact ⟨hlt, rfl⟩
      by_cases hshort : first < 0x40
      · simp only [if_neg hroot, if_pos hshort]
        exact label_agrees hsize hlt first
      by_cases hreserved : first < 0xC0
      · simp only [if_neg hroot, if_neg hshort, if_pos hreserved]
        exact ⟨_, rfl⟩
      simp only [if_neg hroot, if_neg hshort, if_neg hreserved]
      cases hsecond : m[pos + 1]? with
      | none =>
          unfold pointer
          rw [bind_of_error (run_u8_of_none hsize hlt hsecond)]
          exact ⟨_, rfl⟩
      | some second =>
          have mark : 0xC0 ≤ first.toNat := by simpa [UInt8.lt_iff_toNat_lt] using hreserved
          exact pointer_agrees hsize mark hsecond

end

/-! ## Whole names -/

def LabelsAgree (m : Octets) : Except ParseError (Name × Nat) →
    Option (Except ParseError (List Label × UInt64) × UInt64) → Prop
  | .ok (n, next), run => next ≤ m.size ∧ ∃ stop, run = some (.ok (n.labels, next.toUInt64), stop)
  | .error e, run => ∃ stop, run = some (.error e, stop)

def NameProgress.ofNumbers (followed : List Nat) (resume : Option Nat) (labels : List Label) :
    NameProgress :=
  ⟨followed.map Nat.toUInt64, resume.map Nat.toUInt64, labels⟩

section

variable {m : Octets} {pos next target : Nat} {followed : List Nat} {resume : Option Nat}
  {labels : List Label}

theorem getD_le_size (hresume : ∀ r ∈ resume, r ≤ m.size) (hnext : next ≤ m.size) :
    resume.getD next ≤ m.size := by
  cases resume with
  | none => exact hnext
  | some r => exact hresume r rfl

variable (hsize : m.size < UInt64.size)
include hsize

theorem mem_map_toUInt64 (htarget : target ≤ m.size) (hfollowed : ∀ t ∈ followed, t ≤ m.size) :
    target.toUInt64 ∈ followed.map Nat.toUInt64 ↔ target ∈ followed := by
  constructor
  · intro h
    obtain ⟨t, ht, heq⟩ := List.mem_map.1 h
    rw [← UInt64.toNat_inj, toNat_toUInt64 hsize (hfollowed t ht),
      toNat_toUInt64 hsize htarget] at heq
    exact heq ▸ ht
  · exact List.mem_map_of_mem

theorem nameTurn_of_pointer (resume : Option Nat) (labels : List Label)
    (htarget : target < m.size) (hfollowed : ∀ t ∈ followed, t ≤ m.size)
    (hrun : namePiece m pos.toUInt64 = some (.ok (.pointer target.toUInt64), next.toUInt64)) :
    nameTurn (.ofNumbers followed resume labels) m pos.toUInt64 =
      if maxPointers ≤ followed.length then
        some (.error (.malformedName .tooManyPointers), next.toUInt64)
      else if target ∈ followed then some (.error (.malformedName .pointerLoop), next.toUInt64)
      else some (.ok (.inl (.ofNumbers (target :: followed) (some (resume.getD next)) labels)),
        target.toUInt64) := by
  have hlength : (followed.map Nat.toUInt64).length = followed.length := List.length_map _
  have hmem := mem_map_toUInt64 hsize htarget.le hfollowed
  unfold nameTurn
  rw [bind_of_ok hrun, bind_of_ok run_position]
  simp only [NameProgress.ofNumbers, hlength, hmem, Option.getD_map]
  split
  · rfl
  split
  · rfl
  · exact bind_of_ok (run_seek_of_le hsize htarget.le)

theorem labelsFrom_agrees (hpos : pos ≤ m.size) (hfollowed : ∀ t ∈ followed, t ≤ m.size)
    (hresume : ∀ r ∈ resume, r ≤ m.size) :
    LabelsAgree m (walk m pos followed resume labels)
      (labelsFrom (.ofNumbers followed resume labels) m pos.toUInt64) := by
  unfold labelsFrom
  -- Each piece that the walk comes to is one turn of the loop.
  fun_induction walk m pos followed resume labels with
  | case1 pos followed resume labels e hpiece =>
      obtain ⟨stop, hrun⟩ : PieceAgrees m (.error e) _ :=
        hpiece ▸ namePiece_agrees hsize hpos
      rw [repeatM_of_error (bind_of_error hrun)]
      exact ⟨stop, rfl⟩
  | case2 pos followed resume labels next hpiece =>
      obtain ⟨hnext, hrun⟩ : PieceAgrees m (.ok (.root next)) _ :=
        hpiece ▸ namePiece_agrees hsize hpos
      have hturn : nameTurn (.ofNumbers followed resume labels) m pos.toUInt64 =
          some (.ok (.inr (labels.reverse, (resume.getD next).toUInt64)), next.toUInt64) := by
        unfold nameTurn
        rw [bind_of_ok hrun, bind_of_ok run_position, NameProgress.ofNumbers, Option.getD_map]
        rfl
      rw [repeatM_of_inr hturn]
      exact ⟨getD_le_size hresume hnext, _, rfl⟩
  | case3 pos followed resume labels content next hpiece ih =>
      obtain ⟨hnext, hrun⟩ : PieceAgrees m (.ok (.label content next)) _ :=
        hpiece ▸ namePiece_agrees hsize hpos
      have hturn : nameTurn (.ofNumbers followed resume labels) m pos.toUInt64 =
          some (.ok (.inl (.ofNumbers followed resume (content :: labels))), next.toUInt64) := by
        unfold nameTurn
        rw [bind_of_ok hrun, bind_of_ok run_position]
        rfl
      rw [repeatM_of_inl hturn]
      exact ih hnext hfollowed hresume
  | case4 pos followed resume labels target next hpiece hmany =>
      obtain ⟨htarget, -, hrun⟩ : PieceAgrees m (.ok (.pointer target next)) _ :=
        hpiece ▸ namePiece_agrees hsize hpos
      have hturn := nameTurn_of_pointer hsize resume labels htarget hfollowed hrun
      rw [if_pos hmany] at hturn
      rw [repeatM_of_error hturn]
      exact ⟨_, rfl⟩
  | case5 pos followed resume labels target next hpiece hfew hloop =>
      obtain ⟨htarget, -, hrun⟩ : PieceAgrees m (.ok (.pointer target next)) _ :=
        hpiece ▸ namePiece_agrees hsize hpos
      have hturn := nameTurn_of_pointer hsize resume labels htarget hfollowed hrun
      rw [if_neg hfew, if_pos hloop] at hturn
      rw [repeatM_of_error hturn]
      exact ⟨_, rfl⟩
  | case6 pos followed resume labels target next hpiece hfew hnew ih =>
      obtain ⟨htarget, hnext, hrun⟩ : PieceAgrees m (.ok (.pointer target next)) _ :=
        hpiece ▸ namePiece_agrees hsize hpos
      have hturn := nameTurn_of_pointer hsize resume labels htarget hfollowed hrun
      rw [if_neg hfew, if_neg hnew] at hturn
      rw [repeatM_of_inl hturn]
      refine ih htarget.le (List.forall_mem_cons.2 ⟨htarget.le, hfollowed⟩) ?_
      rintro _ ⟨⟩
      exact getD_le_size hresume hnext

theorem agrees_name : Agrees m name Name.read := by
  intro pos hpos
  have hlabels : LabelsAgree m (walk m pos [] none []) (labelsFrom ⟨[], none, []⟩ m pos.toUInt64) :=
    labelsFrom_agrees hsize hpos nofun nofun
  cases hwalk : walk m pos [] none [] with
  | error e =>
      rw [hwalk] at hlabels
      obtain ⟨stop, hrun⟩ := hlabels
      have hread : Name.read m pos = .error e pos := by rw [Name.read, hwalk]
      refine agreesAt_of_error hread hpos ?_
      rw [name, hrun]
  | ok found =>
      obtain ⟨n, next⟩ := found
      rw [hwalk] at hlabels
      obtain ⟨hnext, stop, hrun⟩ := hlabels
      have hread : Name.read m pos = .ok n next := by rw [Name.read, hwalk]
      refine agreesAt_of_ok hread hnext ?_
      rw [name, hrun]
      simp only [bind_of_ok (run_seek_of_le hsize hnext)]
      rfl

end

end StubResolver.WordReader
