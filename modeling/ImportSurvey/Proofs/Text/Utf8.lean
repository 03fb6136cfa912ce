import ImportSurvey.Text.Utf8
/-!
# Plain text in bytes

A text of ASCII characters is encoded in one byte for each and decoded again. Folding its line ends
changes nothing but carriage returns.
-/

namespace ImportSurvey.Text

variable {c : Char} {cs xs : List Char}

private theorem encode_cons (h : c.toNat < 0x80) (cs : List Char) :
    encode (c :: cs) = UInt8.ofNat c.toNat :: encode cs := by
  have hsize : c.val.toNat ≤ 0x7f := Nat.le_of_lt_succ h
  have hchar : String.utf8EncodeChar c = [UInt8.ofNat c.toNat] := by
    rw [String.utf8EncodeChar]
    simp only [if_pos hsize]
    rfl
  rw [encode, List.flatMap_cons, hchar]
  rfl

private theorem decode_cons (h : c.toNat < 0x80) (bytes : List UInt8) :
    decode (UInt8.ofNat c.toNat :: bytes) = some c :: decode bytes := by
  have hbyte : (UInt8.ofNat c.toNat).toNat = c.toNat := by
    rw [UInt8.toNat_ofNat']
    omega
  have hlead : leadByte? c.toNat = some (c.toNat, []) := if_pos (Nat.le_of_lt_succ h)
  rw [decode, hbyte, hlead]
  simp only [readTail, Char.ofNat_toNat]

theorem decode_encode (h : ∀ c ∈ cs, c.toNat < 0x80) : decode (encode cs) = cs.map some := by
  induction cs with
  | nil => rw [encode, List.flatMap_nil, decode, List.map_nil]
  | cons c cs ih =>
    rw [encode_cons (h c List.mem_cons_self), decode_cons (h c List.mem_cons_self),
      ih fun d hd => h d (List.mem_cons_of_mem c hd), List.map_cons]

theorem decodeStrict?_encode (h : ∀ c ∈ cs, c.toNat < 0x80) : decodeStrict? (encode cs) = some cs := by
  rw [decodeStrict?, decode_encode h]
  clear h
  induction cs with
  | nil => rfl
  | cons c cs ih => rw [List.map_cons, List.mapM_cons, ih]; rfl

/-! ## Line ends -/

def isInLine (c : Char) : Bool :=
  c != '\n' && c != '\r'

theorem not_mem_of_inLine (h : ∀ c ∈ cs, isInLine c = true) : '\n' ∉ cs ∧ '\r' ∉ cs :=
  ⟨fun hmem => absurd (h _ hmem) (by decide), fun hmem => absurd (h _ hmem) (by decide)⟩

theorem foldLineEnds_cons (h : c ≠ '\r') (cs : List Char) :
    foldLineEnds (c :: cs) = c :: foldLineEnds cs := by
  rw [foldLineEnds]
  · simp [h]
  · simp [h]

theorem foldLineEnds_append (h : '\r' ∉ xs) (cs : List Char) :
    foldLineEnds (xs ++ cs) = xs ++ foldLineEnds cs := by
  induction xs with
  | nil => rfl
  | cons x xs ih =>
    have hx : x ≠ '\r' := fun heq => h (heq ▸ List.mem_cons_self)
    have hxs : '\r' ∉ xs := fun hmem => h (List.mem_cons_of_mem x hmem)
    rw [List.cons_append, foldLineEnds_cons hx, ih hxs, List.cons_append]

theorem foldLineEnds_eq_self (h : '\r' ∉ cs) : foldLineEnds cs = cs := by
  have happend := foldLineEnds_append h []
  rwa [List.append_nil, foldLineEnds, List.append_nil] at happend

inductive LineEnd
  | lineFeed
  | carriageReturn
  | both

def LineEnd.text : LineEnd → List Char
  | lineFeed => ['\n']
  | carriageReturn => ['\r']
  | both => ['\r', '\n']

/-- Every line end becomes one line feed, and a line feed right behind it may be part of it. -/
theorem exists_foldLineEnds (e : LineEnd) (cs : List Char) :
    ∃ rest, foldLineEnds (e.text ++ cs) = '\n' :: rest ∧
      (foldLineEnds cs = rest ∨ foldLineEnds cs = '\n' :: rest) := by
  cases e with
  | lineFeed => exact ⟨foldLineEnds cs, foldLineEnds_cons (by decide) cs, .inl rfl⟩
  | both => exact ⟨foldLineEnds cs, rfl, .inl rfl⟩
  | carriageReturn =>
    by_cases hfeed : ∃ more, cs = '\n' :: more
    · obtain ⟨more, rfl⟩ := hfeed
      exact ⟨foldLineEnds more, rfl, .inr (foldLineEnds_cons (by decide) more)⟩
    · refine ⟨foldLineEnds cs, ?_, .inl rfl⟩
      change foldLineEnds ('\r' :: cs) = _
      rw [foldLineEnds]
      exact fun more hmore => hfeed ⟨more, hmore⟩

theorem head?_foldLineEnds (cs : List Char) :
    (foldLineEnds cs).head? = cs.head?.map fun c => if c = '\r' then '\n' else c := by
  cases cs with
  | nil => rfl
  | cons c cs =>
    by_cases hc : c = '\r'
    · obtain ⟨rest, hrest, -⟩ := exists_foldLineEnds .carriageReturn cs
      subst hc
      change (foldLineEnds (LineEnd.carriageReturn.text ++ cs)).head? = _
      rw [hrest]
      rfl
    · rw [foldLineEnds_cons hc]
      simp [hc]

end ImportSurvey.Text
