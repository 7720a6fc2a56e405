import StubResolver.Proofs.Wire.Writing

/-!
# Writing field by field

All that is written is a row of fields, and each field is written whole or not at
all. The first one that is at fault or finds too little room ends the writing. Those
before it stay, and nothing of it does.
-/

namespace StubResolver.Writer

/-- The octets of a field, and what is wrong
with the argument that they are made from. -/
structure Field where
  octets : List UInt8
  fault? : Option ComposeError

def Field.plain (octets : List UInt8) : Field := ⟨octets, none⟩

def Field.ofLabels (ls : List Label) : Field := ⟨labelOctets ls, Name.labelsError? ls⟩

def Field.write (f : Field) : Writer :=
  match f.fault? with
  | some e => fail e
  | none => Writer.octets f.octets

def fields : List Field → Writer
  | [] => pure ()
  | f :: rest => do
    f.write
    fields rest

def fieldOctets (fs : List Field) : List UInt8 := fs.flatMap Field.octets

def Sound (fs : List Field) : Prop := ∀ f ∈ fs, f.fault? = none

inductive Field.RefusedAt (f : Field) (capacity size : Nat) : ComposeError → Prop where
  | fault {e : ComposeError} (fault : f.fault? = some e) : RefusedAt f capacity size e
  | noRoom (sound : f.fault? = none) (short : capacity < size + f.octets.length) :
      RefusedAt f capacity size .shortBuffer

variable {fs fs' : List Field} {f : Field} {c : Composer} {e : ComposeError}

/-! ## Rows of fields -/

theorem fields_append (fs fs' : List Field) :
    fields (fs ++ fs') = (do fields fs; fields fs') := by
  induction fs with
  | nil => simp [fields]
  | cons f fs ih => simp [fields, ih]

theorem fields_singleton (f : Field) : fields [f] = f.write := by
  simp [fields]

theorem octets_eq_fields (os : List UInt8) : octets os = fields [.plain os] :=
  (fields_singleton (.plain os)).symm

theorem labels_eq_fields (ls : List Label) : labels ls = fields [.ofLabels ls] :=
  (fields_singleton (.ofLabels ls)).symm

theorem fieldOctets_append (fs fs' : List Field) :
    fieldOctets (fs ++ fs') = fieldOctets fs ++ fieldOctets fs' := List.flatMap_append

theorem sound_append : Sound (fs ++ fs') ↔ Sound fs ∧ Sound fs' := List.forall_mem_append

/-! ## What becomes of them -/

theorem bind_of_error {w w' : Writer} {c' : Composer} (h : w c = .error e c') :
    (do w; w' : Writer) c = .error e c' := by
  change EStateM.bind w (fun _ => w') c = _
  rw [EStateM.bind, h]

theorem runOn_fields_of_fault (h : f.fault? = some e) :
    (fields (f :: fs)).runOn c = (.error e, c) := by
  have hwrite : f.write = fail e := by rw [Field.write, h]
  rw [fields, hwrite]
  rfl

theorem runOn_fields_of_short (hsound : f.fault? = none)
    (hshort : c.capacity < c.octets.size + f.octets.length) :
    (fields (f :: fs)).runOn c = (.error .shortBuffer, c) := by
  have hwrite : f.write c = .error .shortBuffer c := by
    rw [Field.write, hsound]
    exact if_neg (Nat.not_le.2 hshort)
  unfold runOn
  rw [fields, bind_of_error hwrite]

theorem runOn_fields_of_room (hsound : f.fault? = none)
    (hroom : c.octets.size + f.octets.length ≤ c.capacity) :
    (fields (f :: fs)).runOn c =
      (fields fs).runOn { c with octets := c.octets ++ f.octets } := by
  have hwrite : f.write.Appends f.octets := by
    rw [Field.write, hsound]
    exact octets_appends f.octets
  unfold runOn
  rw [fields, hwrite.bind_eq hroom]

structure Completed (fs : List Field) (c : Composer) : Prop where
  sound : Sound fs
  room : c.octets.size + (fieldOctets fs).length ≤ c.capacity
  written : (fields fs).runOn c = (.ok (), { c with octets := c.octets ++ fieldOctets fs })

/-- The writing broke off at a field, behind those that were done. -/
structure BrokenOff (fs : List Field) (c : Composer) (e : ComposeError) (done : List Field)
    (refused : Field) (rest : List Field) : Prop where
  split : fs = done ++ refused :: rest
  sound : Sound done
  room : c.octets.size + (fieldOctets done).length ≤ c.capacity
  refused : refused.RefusedAt c.capacity (c.octets.size + (fieldOctets done).length) e
  written : (fields fs).runOn c = (.error e, { c with octets := c.octets ++ fieldOctets done })

theorem brokenOff_here (hroom : c.octets.size ≤ c.capacity)
    (hrefused : f.RefusedAt c.capacity c.octets.size e)
    (hwritten : (fields (f :: fs)).runOn c = (.error e, c)) : BrokenOff (f :: fs) c e [] f fs where
  split := rfl
  sound := List.forall_mem_nil _
  room := hroom
  refused := hrefused
  written := by
    rw [hwritten, fieldOctets, List.flatMap_nil, Array.appendList_nil]

theorem completed_or_brokenOff (fs : List Field) (c : Composer)
    (hroom : c.octets.size ≤ c.capacity) :
    Completed fs c ∨ ∃ e done refused rest, BrokenOff fs c e done refused rest := by
  induction fs generalizing c with
  | nil => exact .inl ⟨List.forall_mem_nil _, hroom, by simp [fields, fieldOctets, runOn]; rfl⟩
  | cons f fs ih =>
      cases hfault : f.fault? with
      | some e =>
          exact .inr ⟨e, [], f, fs,
            brokenOff_here hroom (.fault hfault) (runOn_fields_of_fault hfault)⟩
      | none =>
          by_cases hfits : c.octets.size + f.octets.length ≤ c.capacity
          · have hsize := size_append c.octets f.octets
            have hwritten : (fields (f :: fs)).runOn c =
                (fields fs).runOn { c with octets := c.octets ++ f.octets } :=
              runOn_fields_of_room hfault hfits
            have hoctets (fs : List Field) : fieldOctets (f :: fs) = f.octets ++ fieldOctets fs :=
              rfl
            have hlength (fs : List Field) : c.octets.size + (fieldOctets (f :: fs)).length =
                (c.octets ++ f.octets).size + (fieldOctets fs).length := by
              rw [hoctets, List.length_append, hsize, Nat.add_assoc]
            rcases ih { c with octets := c.octets ++ f.octets } (hsize ▸ hfits) with
              h | ⟨e, done, refused, rest, h⟩
            · refine .inl ⟨List.forall_mem_cons.2 ⟨hfault, h.sound⟩, hlength fs ▸ h.room, ?_⟩
              rw [hwritten, h.written, append_append, hoctets]
            · refine .inr ⟨e, f :: done, refused, rest, congrArg (f :: ·) h.split,
                List.forall_mem_cons.2 ⟨hfault, h.sound⟩, hlength done ▸ h.room,
                hlength done ▸ h.refused, ?_⟩
              rw [hwritten, h.written, append_append, hoctets]
          · have hshort := Nat.not_le.1 hfits
            exact .inr ⟨_, [], f, fs,
              brokenOff_here hroom (.noRoom hfault hshort) (runOn_fields_of_short hfault hshort)⟩

theorem BrokenOff.not_completed {done rest : List Field} {refused : Field}
    (h : BrokenOff fs c e done refused rest) :
    ¬ (Sound fs ∧ c.octets.size + (fieldOctets fs).length ≤ c.capacity) := by
  rintro ⟨hsound, hroom⟩
  rw [h.split] at hsound hroom
  have hrefused := hsound refused (by simp)
  cases h.refused with
  | fault fault => simp [hrefused] at fault
  | noRoom sound short =>
      simp [fieldOctets] at hroom short
      omega

theorem runOn_fields_eq_ok_iff (hroom : c.octets.size ≤ c.capacity) :
    ((fields fs).runOn c).1 = .ok () ↔
      Sound fs ∧ c.octets.size + (fieldOctets fs).length ≤ c.capacity := by
  rcases completed_or_brokenOff fs c hroom with h | ⟨e, done, refused, rest, h⟩
  · simp [h.written, h.sound, h.room]
  · simp only [h.written, reduceCtorEq, false_iff]
    exact h.not_completed

end StubResolver.Writer
