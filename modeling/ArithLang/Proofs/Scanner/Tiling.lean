/-
How the tokens of a text lie in its bytes. `Span.Covers` says that a span begins and ends between characters of
a source and which text its bytes are; `Tiles` says that tokens cover a source one after the other, with nothing
but blanks outside of them, and what each of them is.

Main fact: the tokens of a source tile it (`lex_tiles`). Each property is one of the characters first, by
induction over how the tokens lie in them (`Tokenizes`), and is moved to bytes at the end. That no digit stands
before a number is a property of the token before it, so `Tokenizes.place` is about both ends of a token at once.
-/
import ArithLang.Proofs.Scanner.Layout

namespace ArithLang

/-! ## Texts in a source -/

/-- The span lies in the source and begins and ends between two characters of it, and the bytes over it
are those of `text`. -/
structure Span.Covers (s : Span) (source text : String) : Prop where
  start : (String.Pos.Raw.mk s.start).IsValid source
  stop : (String.Pos.Raw.mk s.stop).IsValid source
  bytes : source.toByteArray.extract s.start s.stop = text.toByteArray

theorem Span.Covers.stop_le {s : Span} {source text : String} (h : s.Covers source text) :
    s.stop ≤ source.utf8ByteSize := h.stop.le_rawEndPos

theorem Span.covers_of_append {s : Span} {before text after : String} (hstart : s.start = before.utf8ByteSize)
    (hlength : s.length = text.utf8ByteSize) : s.Covers (before ++ text ++ after) text where
  start := String.Pos.Raw.isValid_iff_exists_append.2 ⟨before, text ++ after, String.append_assoc, by rw [hstart]; rfl⟩
  stop := by
    refine String.Pos.Raw.isValid_iff_exists_append.2 ⟨before ++ text, after, rfl, ?_⟩
    rw [stop, hstart, hlength, ← String.utf8ByteSize_append]; rfl
  bytes := by
    have hbytes : (before ++ text ++ after).toByteArray =
        before.toByteArray ++ (text.toByteArray ++ after.toByteArray) := by
      simp only [String.toByteArray_append, ByteArray.append_assoc]
    have hend : before.utf8ByteSize + text.utf8ByteSize = before.toByteArray.size + text.toByteArray.size := rfl
    rw [stop, hstart, hlength, hbytes, hend, ← String.size_toByteArray]
    exact (ByteArray.extract_append_size_add' (i := 0) rfl).trans (ByteArray.extract_append_eq_left rfl)

/-- Texts before a place are equal if they have the same size. -/
theorem append_inj_of_size {before before' after after' : String} (h : before ++ after = before' ++ after')
    (hsize : before.utf8ByteSize = before'.utf8ByteSize) : before = before' ∧ after = after' := by
  have hbytes := congrArg String.toByteArray h
  rw [String.toByteArray_append, String.toByteArray_append,
    ByteArray.append_eq_append_iff_of_size_eq_left hsize] at hbytes
  exact ⟨String.toByteArray_inj.1 hbytes.1, String.toByteArray_inj.1 hbytes.2⟩

/-- The bytes of the characters. -/
def bytesOf (cs : List Char) : List UInt8 := cs.flatMap String.utf8EncodeChar

@[simp] theorem bytesOf_append (cs ds : List Char) : bytesOf (cs ++ ds) = bytesOf cs ++ bytesOf ds :=
  List.flatMap_append

@[simp] theorem length_bytesOf (cs : List Char) : (bytesOf cs).length = byteLength cs := by
  rw [byteLength, ← String.size_toByteArray, String.toByteArray_ofList, List.utf8Encode, List.size_toByteArray, bytesOf]

theorem toByteArray_eq (s : String) : s.toByteArray = (bytesOf s.toList).toByteArray := by
  have hs : s.toByteArray = (String.ofList s.toList).toByteArray := by rw [String.ofList_toList]
  rw [hs, String.toByteArray_ofList, List.utf8Encode, bytesOf]

/-! ## One token -/

namespace Token.WellFormed

variable {t : Token}

theorem text_ne_empty (h : t.WellFormed) : t.text ≠ "" := by
  cases h with
  | number hne => simpa [← String.toList_inj] using hne
  | symbol => simp [← String.toList_inj]

theorem not_blank (h : t.WellFormed) : ∀ c ∈ t.text.toList, isBlank c = false := by
  cases h with
  | number _ hdigits =>
    intro c hc
    rw [String.toList_ofList] at hc
    exact isBlank_of_isDigit (hdigits c hc)
  | symbol hb => simpa using hb

theorem kind_eq_number_iff (h : t.WellFormed) : t.kind = .number ↔ ∀ c ∈ t.text.toList, c.isDigit = true := by
  cases h with
  | number _ hdigits => simpa [AllDigits] using hdigits
  | @symbol c _ _ hd => simp [TokenKind.ofChar_ne_number c, hd]

/-- A token that is no number is one character, and its kind says which. -/
theorem eq_ofChar (h : t.WellFormed) (hk : t.kind ≠ .number) :
    ∃ c, t.text = String.singleton c ∧ t.kind = .ofChar c := by
  cases h with
  | number => exact absurd rfl hk
  | @symbol c => exact ⟨c, rfl, rfl⟩

/-- A token with the kind of a character is that character. -/
theorem text_eq_of_kind (h : t.WellFormed) {c : Char} (hk : t.kind = .ofChar c) : t.text = String.singleton c := by
  obtain ⟨d, htext, hd⟩ := h.eq_ofChar (by rw [hk]; exact TokenKind.ofChar_ne_number c)
  rw [htext, TokenKind.ofChar_injective (hd.symm.trans hk)]

end Token.WellFormed

theorem TokenKind.ofChar_cases (c : Char) :
    c = '+' ∧ ofChar c = .plus ∨ c = '-' ∧ ofChar c = .minus ∨ c = '*' ∧ ofChar c = .star ∨
      c = '/' ∧ ofChar c = .slash ∨ c ∉ "+-*/".toList ∧ ofChar c = .other c := by
  unfold ofChar
  split <;> simp_all

/-! ## Places of tokens -/

/-- The last character is that of the second part, or of the first one if the second has none. -/
theorem forall_getLast?_append {P : Char → Prop} {cs ds : List Char} (hds : ∀ d ∈ ds.getLast?, P d)
    (hcs : ds = [] → ∀ c ∈ cs.getLast?, P c) : ∀ c ∈ (cs ++ ds).getLast?, P c := by
  rcases List.eq_nil_or_concat ds with rfl | ⟨ds, d, rfl⟩
  · simpa using hcs rfl
  · intro c hc
    exact hds c (by simpa using hc)

theorem noDigitBefore_of_allBlank {cs : List Char} (h : AllBlank cs) : NoDigitBefore cs := fun c hc =>
  not_isDigit_of_isBlank (h c (List.mem_of_getLast? hc))

/-- A number does not begin where another token ends with a digit. -/
theorem Token.WellFormed.noDigitBefore {t u : Token} {after : List Char} (hu : u.WellFormed) (ht : t.WellFormed)
    (hk : t.kind = .number) (hnext : u.kind = .number → NoDigitNext (t.text.toList ++ after)) :
    NoDigitBefore u.text.toList := by
  cases hu with
  | number =>
    obtain ⟨d, digits, hd⟩ := List.exists_cons_of_ne_nil (mt String.toList_eq_nil_iff.1 ht.text_ne_empty)
    have hdigit := ht.kind_eq_number_iff.1 hk d (by rw [hd]; exact List.mem_cons_self)
    have hno := hnext rfl d (by rw [hd]; rfl)
    rw [hdigit] at hno
    cases hno
  | @symbol c _ _ hc =>
    intro d hd
    rw [String.toList_singleton] at hd
    cases hd
    exact hc

/-- A token has its place in the text, and a number has no digit next to it. -/
theorem Tokenizes.place {offset : Nat} {cs : List Char} {ts : List Token} (h : Tokenizes offset cs ts) {t : Token}
    (ht : t ∈ ts) : ∃ before after, cs = before ++ (t.text.toList ++ after) ∧ t.offset = offset + byteLength before ∧
      (t.kind = .number → NoDigitBefore before ∧ NoDigitNext after) := by
  induction h with
  | blank => cases ht
  | @token offset blanks rest u us hblanks hu hat hrest h ih =>
    rcases List.mem_cons.1 ht with rfl | ht
    · exact ⟨blanks, rest, rfl, hat, fun hk => ⟨noDigitBefore_of_allBlank hblanks, hrest hk⟩⟩
    · obtain ⟨before, after, rfl, hat', hnext⟩ := ih ht
      refine ⟨blanks ++ (u.text.toList ++ before), after, by simp, ?_, fun hk => ⟨?_, (hnext hk).2⟩⟩
      · rw [hat', Token.stop_span_add hat]
      · -- only where nothing stands between the two tokens can the first one end with a digit
        have hbefore : NoDigitBefore (u.text.toList ++ before) := forall_getLast?_append (hnext hk).1 fun hnil =>
          hu.noDigitBefore (h.wellFormed t ht) hk fun hk' => by simpa [hnil] using hrest hk'
        exact forall_getLast?_append hbefore fun _ => noDigitBefore_of_allBlank hblanks

theorem Tokenizes.offset_le {offset : Nat} {cs : List Char} {ts : List Token} (h : Tokenizes offset cs ts) :
    ∀ t ∈ ts, offset ≤ t.offset := by
  intro t ht
  obtain ⟨before, -, -, hat, -⟩ := h.place ht
  omega

/-- No token begins before the ones before it end. -/
theorem Tokenizes.pairwise {offset : Nat} {cs : List Char} {ts : List Token} (h : Tokenizes offset cs ts) :
    ts.Pairwise fun t u => t.span.stop ≤ u.offset := by
  induction h with
  | blank => exact .nil
  | token _ _ _ _ h ih => exact .cons h.offset_le ih

theorem filter_of_allBlank {cs : List Char} (h : AllBlank cs) : cs.filter (!isBlank ·) = [] :=
  List.filter_eq_nil_iff.2 fun c hc => by simp [h c hc]

/-- What is left of a text without its blanks are the texts of its tokens. -/
theorem Tokenizes.flatMap_text {offset : Nat} {cs : List Char} {ts : List Token} (h : Tokenizes offset cs ts) :
    ts.flatMap (·.text.toList) = cs.filter (!isBlank ·) := by
  induction h with
  | blank hb => exact (filter_of_allBlank hb).symm
  | @token offset blanks rest t ts hb ht hat hrest h ih =>
    have htext : t.text.toList.filter (!isBlank ·) = t.text.toList := by
      simpa [List.filter_eq_self] using ht.not_blank
    rw [List.flatMap_cons, ih, List.filter_append, List.filter_append, filter_of_allBlank hb, htext, List.nil_append]

/-! ## Bytes outside of tokens -/

/-- A blank is one byte. -/
theorem utf8EncodeChar_of_isBlank {c : Char} (h : isBlank c = true) :
    ∃ b ∈ ([0x20, 0x09, 0x0A] : List UInt8), String.utf8EncodeChar c = [b] := by
  simp only [isBlank, Bool.or_eq_true, beq_iff_eq] at h
  rcases h with (rfl | rfl) | rfl
  · exact ⟨0x20, by simp, rfl⟩
  · exact ⟨0x09, by simp, rfl⟩
  · exact ⟨0x0A, by simp, rfl⟩

theorem byte_of_allBlank {cs : List Char} (h : AllBlank cs) : ∀ b ∈ bytesOf cs, b ∈ [0x20, 0x09, 0x0A] := by
  intro b hb
  obtain ⟨c, hc, hb⟩ := List.mem_flatMap.1 hb
  obtain ⟨b', hb', hcode⟩ := utf8EncodeChar_of_isBlank (h c hc)
  rw [hcode, List.mem_singleton] at hb
  rwa [hb]

/-- A byte that is in no token is a blank. -/
theorem Tokenizes.byte_outside {offset : Nat} {cs : List Char} {ts : List Token} (h : Tokenizes offset cs ts) {i : Nat}
    {b : UInt8} (hb : (bytesOf cs)[i]? = some b)
    (hout : ∀ t ∈ ts, offset + i < t.offset ∨ t.span.stop ≤ offset + i) : b ∈ [0x20, 0x09, 0x0A] := by
  induction h generalizing i with
  | blank hblank => exact byte_of_allBlank hblank b (List.mem_of_getElem? hb)
  | @token offset blanks rest t ts hblanks ht hat hrest h ih =>
    rw [bytesOf_append, bytesOf_append] at hb
    obtain ⟨ht, hts⟩ := List.forall_mem_cons.1 hout
    rw [Token.stop_span, hat] at ht
    by_cases hi : i < byteLength blanks
    · rw [List.getElem?_append_left (by simpa using hi)] at hb
      exact byte_of_allBlank hblanks b (List.mem_of_getElem? hb)
    · -- not in the blanks and not in the token, so the byte is one of the rest
      have htext : byteLength t.text.toList ≤ i - byteLength blanks := by omega
      rw [List.getElem?_append_right (by simpa using hi), List.getElem?_append_right (by simpa using htext)] at hb
      refine ih hb fun u hu => ?_
      have hplace : t.span.stop + (i - byteLength blanks - byteLength t.text.toList) = offset + i := by
        rw [Token.stop_span, hat]; omega
      simpa only [length_bytesOf, hplace] using hts u hu

/-! ## The whole text -/

variable {source : String} {t : Token}

/-- A token of a text is cut out of it, and a number has no digit next to it. -/
theorem place_of_mem_lex (ht : t ∈ lex source) : ∃ before after, source = before ++ t.text ++ after ∧
    before.utf8ByteSize = t.offset ∧
    (t.kind = .number → NoDigitBefore before.toList ∧ NoDigitNext after.toList) := by
  obtain ⟨before, after, hsource, hat, hdigits⟩ := (tokenizes_tokensFrom 0 source.toList).place ht
  refine ⟨String.ofList before, String.ofList after, ?_, by rw [hat, Nat.zero_add]; rfl, by simpa using hdigits⟩
  rw [← String.toList_inj]
  simpa using hsource

theorem wellFormed_of_mem_lex (ht : t ∈ lex source) : t.WellFormed :=
  (tokenizes_tokensFrom 0 source.toList).wellFormed t ht

theorem covers_of_mem_lex (ht : t ∈ lex source) : t.span.Covers source t.text := by
  obtain ⟨before, after, rfl, hat, -⟩ := place_of_mem_lex ht
  exact Span.covers_of_append hat.symm rfl

/-- The tokens cover the source one after the other, with blanks outside of them. -/
structure Tiles (source : String) (ts : List Token) : Prop where
  covers : ∀ t ∈ ts, t.text ≠ "" ∧ t.span.Covers source t.text
  ordered : ts.Pairwise fun t u => t.span.stop ≤ u.span.start
  /-- A byte that is in no token is a space, a tab or a newline. -/
  outside : ∀ i (_ : i < source.toByteArray.size), (∀ t ∈ ts, i < t.span.start ∨ t.span.stop ≤ i) →
    source.toByteArray[i] ∈ [0x20, 0x09, 0x0A]
  not_blank : ∀ t ∈ ts, ∀ c ∈ t.text.toList, c ∉ " \t\n".toList
  number : ∀ t ∈ ts, t.kind = .number ↔ ∀ c ∈ t.text.toList, c.isDigit = true
  /-- A number is as long as it can be: no digit stands before it and none after it. -/
  maximal : ∀ t ∈ ts, t.kind = .number → ∀ before after, source = before ++ t.text ++ after →
    before.utf8ByteSize = t.span.start →
      (∀ c ∈ before.toList.getLast?, c.isDigit = false) ∧ ∀ c ∈ after.toList.head?, c.isDigit = false
  symbol : ∀ t ∈ ts, t.kind ≠ .number → ∃ c, t.text = String.singleton c ∧
    (c = '+' ∧ t.kind = .plus ∨ c = '-' ∧ t.kind = .minus ∨ c = '*' ∧ t.kind = .star ∨ c = '/' ∧ t.kind = .slash ∨
      c ∉ "+-*/".toList ∧ t.kind = .other c)
  texts : String.join (ts.map Token.text) = String.ofList (source.toList.filter (· ∉ " \t\n".toList))

/-- The tokens of a source tile it. -/
theorem lex_tiles (source : String) : Tiles source (lex source) := by
  have htokens : Tokenizes 0 source.toList (lex source) := tokenizes_tokensFrom 0 source.toList
  constructor
  case covers => exact fun t ht => ⟨(wellFormed_of_mem_lex ht).text_ne_empty, covers_of_mem_lex ht⟩
  case ordered => exact htokens.pairwise
  case outside =>
    intro i hi hout
    have hbyte : (bytesOf source.toList)[i]? = some source.toByteArray[i] := by
      simp only [toByteArray_eq, List.getElem_toByteArray]
      exact List.getElem?_eq_getElem _
    refine htokens.byte_outside hbyte fun t ht => ?_
    rw [Nat.zero_add]
    exact hout t ht
  case not_blank =>
    intro t ht c hc
    rw [← isBlank_iff, (wellFormed_of_mem_lex ht).not_blank c hc]
    simp
  case number => exact fun t ht => (wellFormed_of_mem_lex ht).kind_eq_number_iff
  case maximal =>
    intro t ht hk before after hsource hat
    -- the source is cut in one way only at the place of the token
    obtain ⟨before', after', hsource', hat', hdigits⟩ := place_of_mem_lex ht
    rw [hsource, String.append_assoc, String.append_assoc] at hsource'
    obtain ⟨rfl, hrest⟩ := append_inj_of_size hsource' (hat.trans hat'.symm)
    obtain ⟨-, rfl⟩ := append_inj_of_size hrest rfl
    exact hdigits hk
  case symbol =>
    intro t ht hk
    obtain ⟨c, htext, hkind⟩ := (wellFormed_of_mem_lex ht).eq_ofChar hk
    refine ⟨c, htext, ?_⟩
    rw [hkind]
    exact TokenKind.ofChar_cases c
  case texts =>
    rw [← String.toList_inj, String.toList_join, List.flatMap_map, htokens.flatMap_text, String.toList_ofList]
    refine List.filter_congr fun c _ => ?_
    rw [Bool.eq_iff_iff, decide_eq_true_iff, ← isBlank_iff]
    simp

end ArithLang
