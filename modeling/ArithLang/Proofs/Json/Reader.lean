/-
A reader of JSON. It goes from left to right and hands on what it has not read; the number that bounds its recursion is
the number of characters there are. What it reads is JSON (`isDocument_of_read?`): every part of it takes what the
grammar allows there off the front of the text.
-/
import ArithLang.Proofs.Json.Grammar
import Mathlib.Data.List.Basic

namespace ArithLang.Json

/-- What is read, and the characters after it. -/
abbrev Reader (α : Type) := List Char → Option (α × List Char)

/-! ## The reader -/

def skipSpace (s : List Char) : List Char := s.dropWhile isSpace

/-- A `\u` escape, or two that are a pair, without the first backslash and its letter. -/
def readUnits : Reader Char := fun s => do
  let n ← unit? (s.take 4)
  let rest := s.drop 4
  if isUpperHalf n then
    let m ← unit? ((rest.drop 2).take 4)
    if rest.take 2 = ['\\', 'u'] ∧ isLowerHalf m then some (joinHalves n m, rest.drop 6) else none
  else if isLowerHalf n then none
  else some (Char.ofNat n, rest)

/-- One character of a string. -/
def readEscaped : Reader Char
  | '\\' :: 'u' :: s => readUnits s
  | '\\' :: letter :: s => (shortEscape? letter).map (·, s)
  | c :: s => if 0x20 ≤ c.toNat ∧ c ≠ '"' ∧ c ≠ '\\' then some (c, s) else none
  | [] => none

/-- What is between the quotes of a string, and the quote that closes it. -/
def readText : Nat → Reader (List Char)
  | 0, _ => none
  | n + 1, s =>
    if s.head? = some '"' then some ([], s.tail)
    else do
      let (c, s) ← readEscaped s
      let (text, s) ← readText n s
      some (c :: text, s)

def readQuoted : Reader String := fun s =>
  if s.head? = some '"' then (readText s.length s.tail).map fun (text, s) => (String.ofList text, s) else none

section
variable {α : Type} (read : Reader α)

def readSpaced : Reader α := fun s => do
  let (a, s) ← read (skipSpace s)
  some (a, skipSpace s)

def readMember : Reader (String × α) := fun s => do
  let (name, s) ← readSpaced readQuoted s
  if s.head? = some ':' then
    let (a, s) ← readSpaced read s.tail
    some ((name, a), s)
  else none

def readListed : Nat → Reader (List α)
  | 0, _ => none
  | n + 1, s => do
    let (a, s) ← read s
    if s.head? = some ',' then
      let (as, s) ← readListed n s.tail
      some (a :: as, s)
    else some ([a], s)

/-- A list that may be empty, up to the sign that closes it. -/
def readUpTo (close : Char) : Reader (List α) := fun s =>
  if (skipSpace s).head? = some close then some ([], (skipSpace s).tail)
  else do
    let (as, s) ← readListed read s.length s
    if s.head? = some close then some (as, s.tail) else none

end

/-- The characters of names and numbers. -/
def isWordChar (c : Char) : Bool := c.isAlphanum || c = '-' || c = '+' || c = '.'

def readScalar : Reader Value := fun s =>
  (scalar? (s.takeWhile isWordChar)).map (·, s.dropWhile isWordChar)

def readValue : Nat → Reader Value
  | 0, _ => none
  | n + 1, s =>
    if s.head? = some '"' then (readQuoted s).map fun (text, s) => (.string text, s)
    else if s.head? = some '[' then
      (readUpTo (readSpaced (readValue n)) ']' s.tail).map fun (items, s) => (.array items, s)
    else if s.head? = some '\x7b' then
      (readUpTo (readMember (readValue n)) '\x7d' s.tail).map fun (members, s) => (.object members, s)
    else readScalar s

/-- The value of a text that is a JSON document. -/
def read? (text : String) : Option Value :=
  match readSpaced (readValue text.length) text.toList with
  | some (v, []) => some v
  | _ => none

/-! ## What is read is JSON -/

/-- What is read was written by `R`. -/
def Sound {α : Type} (R : List Char → α → Prop) (read : Reader α) : Prop :=
  ∀ ⦃s a rest⦄, read s = some (a, rest) → ∃ cs, s = cs ++ rest ∧ R cs a

theorem skipSpace_spec (s : List Char) : ∃ space, s = space ++ skipSpace s ∧ space.all isSpace :=
  ⟨s.takeWhile isSpace, List.takeWhile_append_dropWhile.symm, List.all_takeWhile⟩

theorem sound_readUnits : Sound (fun cs c => EscapedChar ('\\' :: 'u' :: cs) c) readUnits := by
  intro s c rest h
  simp only [readUnits, Option.bind_eq_bind, Option.bind_eq_some_iff] at h
  obtain ⟨n, hn, h⟩ := h
  split at h
  next hupper =>
    obtain ⟨m, hm, h⟩ := Option.bind_eq_some_iff.1 h
    split at h
    next hpair =>
      obtain ⟨hslash, hlower⟩ := hpair
      obtain ⟨rfl, rfl⟩ := Prod.mk.inj (Option.some.inj h)
      refine ⟨s.take 4 ++ '\\' :: 'u' :: ((s.drop 4).drop 2).take 4, ?_, .pair hn hm hupper hlower⟩
      calc s = s.take 4 ++ ((s.drop 4).take 2 ++ (((s.drop 4).drop 2).take 4 ++ ((s.drop 4).drop 2).drop 4)) := by
            simp only [List.take_append_drop]
        _ = _ := by rw [hslash, List.drop_drop]; simp
    next => exact nomatch h
  next hupper =>
    split at h
    next => exact nomatch h
    next hlower =>
      obtain ⟨rfl, rfl⟩ := Prod.mk.inj (Option.some.inj h)
      exact ⟨s.take 4, (List.take_append_drop 4 s).symm, .unit hn (by simpa using hupper) (by simpa using hlower)⟩

theorem sound_readEscaped : Sound EscapedChar readEscaped := by
  intro s c rest h
  unfold readEscaped at h
  split at h
  next s =>
    obtain ⟨cs, rfl, hcs⟩ := sound_readUnits h
    exact ⟨_, rfl, hcs⟩
  next letter s _ =>
    simp only [Option.map_eq_some_iff, Prod.mk.injEq] at h
    obtain ⟨_, hletter, rfl, rfl⟩ := h
    exact ⟨_, rfl, .short hletter⟩
  next d s _ _ =>
    split at h
    next hplain =>
      obtain ⟨rfl, rfl⟩ := Prod.mk.inj (Option.some.inj h)
      exact ⟨_, rfl, .plain hplain.1 hplain.2.1 hplain.2.2⟩
    next => exact nomatch h
  next => exact nomatch h

theorem sound_readText (n : Nat) :
    Sound (fun cs text => ∃ spelled, cs = spelled ++ ['"'] ∧ EscapedText spelled text) (readText n) := by
  induction n with
  | zero =>
    intro s text rest h
    exact nomatch h
  | succ n ih =>
    intro s text rest h
    rw [readText] at h
    split at h
    next hquote =>
      obtain ⟨rfl, rfl⟩ := Prod.mk.inj (Option.some.inj h)
      exact ⟨['"'], List.eq_cons_of_mem_head? hquote, [], rfl, .nil⟩
    next =>
      simp only [Option.bind_eq_bind, Option.bind_eq_some_iff, Prod.exists, Option.some.injEq, Prod.mk.injEq] at h
      obtain ⟨c, s', hc, text', _, htext, rfl, rfl⟩ := h
      obtain ⟨cs, rfl, hcs⟩ := sound_readEscaped hc
      obtain ⟨_, rfl, spelled, rfl, hspelled⟩ := ih htext
      exact ⟨cs ++ (spelled ++ ['"']), by simp, cs ++ spelled, by simp, .cons hcs hspelled⟩

theorem sound_readQuoted : Sound Quoted readQuoted := by
  intro s text rest h
  rw [readQuoted] at h
  split at h
  next hquote =>
    simp only [Option.map_eq_some_iff, Prod.exists, Prod.mk.injEq] at h
    obtain ⟨chars, _, htext, rfl, rfl⟩ := h
    obtain ⟨_, hs, spelled, rfl, hspelled⟩ := sound_readText _ htext
    refine ⟨'"' :: (spelled ++ ['"']), ?_, .mk (by rwa [String.toList_ofList])⟩
    rw [List.eq_cons_of_mem_head? hquote, hs]
    rfl
  next => exact nomatch h

section
variable {α : Type} {R : List Char → α → Prop} {read : Reader α}

theorem Sound.spaced (hread : Sound R read) : Sound (Spaced R) (readSpaced read) := by
  intro s a rest h
  simp only [readSpaced, Option.bind_eq_bind, Option.bind_eq_some_iff, Prod.exists, Option.some.injEq,
    Prod.mk.injEq] at h
  obtain ⟨_, s', ha, rfl, rfl⟩ := h
  obtain ⟨before, hs, hbefore⟩ := skipSpace_spec s
  obtain ⟨after, hs', hafter⟩ := skipSpace_spec s'
  obtain ⟨cs, hcs, hR⟩ := hread ha
  refine ⟨before ++ cs ++ after, ?_, .mk hbefore hR hafter⟩
  rw [hs, hcs, List.append_assoc, List.append_assoc, ← hs']

theorem Sound.member (hread : Sound R read) : Sound (Member R) (readMember read) := by
  intro s m rest h
  simp only [readMember, Option.bind_eq_bind, Option.bind_eq_some_iff, Prod.exists] at h
  obtain ⟨name, s', hname, h⟩ := h
  split at h
  next hcolon =>
    simp only [Option.bind_eq_some_iff, Prod.exists, Option.some.injEq, Prod.mk.injEq] at h
    obtain ⟨a, _, ha, rfl, rfl⟩ := h
    obtain ⟨cs, rfl, hcs⟩ := sound_readQuoted.spaced hname
    obtain ⟨cs', htail, hcs'⟩ := hread.spaced ha
    refine ⟨cs ++ ':' :: cs', ?_, .mk hcs hcs'⟩
    rw [List.eq_cons_of_mem_head? hcolon, htail]
    simp
  next => exact nomatch h

theorem Sound.listed (hread : Sound R read) (n : Nat) : Sound (Listed R) (readListed read n) := by
  induction n with
  | zero =>
    intro s as rest h
    exact nomatch h
  | succ n ih =>
    intro s as rest h
    simp only [readListed, Option.bind_eq_bind, Option.bind_eq_some_iff, Prod.exists] at h
    obtain ⟨a, s', ha, h⟩ := h
    obtain ⟨cs, rfl, hcs⟩ := hread ha
    split at h
    next hcomma =>
      simp only [Option.bind_eq_some_iff, Prod.exists, Option.some.injEq, Prod.mk.injEq] at h
      obtain ⟨as', _, has, rfl, rfl⟩ := h
      obtain ⟨cs', htail, hcs'⟩ := ih has
      refine ⟨cs ++ ',' :: cs', ?_, .more hcs hcs'⟩
      rw [List.eq_cons_of_mem_head? hcomma, htail]
      simp
    next =>
      obtain ⟨rfl, rfl⟩ := Prod.mk.inj (Option.some.inj h)
      exact ⟨cs, rfl, .one hcs⟩

/-- Nothing but blanks, or a list. -/
theorem Sound.upTo (hread : Sound R read) {close : Char} {s rest : List Char} {as : List α}
    (h : readUpTo read close s = some (as, rest)) :
    ∃ cs, s = cs ++ close :: rest ∧ (as = [] ∧ cs.all isSpace ∨ Listed R cs as) := by
  rw [readUpTo] at h
  split at h
  next hclose =>
    obtain ⟨rfl, rfl⟩ := Prod.mk.inj (Option.some.inj h)
    obtain ⟨space, hs, hspace⟩ := skipSpace_spec s
    exact ⟨space, hs.trans (by rw [← List.eq_cons_of_mem_head? hclose]), .inl ⟨rfl, hspace⟩⟩
  next =>
    simp only [Option.bind_eq_bind, Option.bind_eq_some_iff, Prod.exists] at h
    obtain ⟨as', s', has, h⟩ := h
    obtain ⟨cs, rfl, hcs⟩ := hread.listed _ has
    split at h
    next hclose =>
      obtain ⟨rfl, rfl⟩ := Prod.mk.inj (Option.some.inj h)
      exact ⟨cs, by rw [← List.eq_cons_of_mem_head? hclose], .inr hcs⟩
    next => exact nomatch h

end

theorem sound_readScalar : Sound Writes readScalar := by
  intro s v rest h
  simp only [readScalar, Option.map_eq_some_iff, Prod.mk.injEq] at h
  obtain ⟨_, hv, rfl, rfl⟩ := h
  exact ⟨_, List.takeWhile_append_dropWhile.symm, .scalar hv⟩

theorem sound_readValue (n : Nat) : Sound Writes (readValue n) := by
  induction n with
  | zero =>
    intro s v rest h
    exact nomatch h
  | succ n ih =>
    intro s v rest h
    rw [readValue] at h
    split at h
    next =>
      simp only [Option.map_eq_some_iff, Prod.exists, Prod.mk.injEq] at h
      obtain ⟨text, _, htext, rfl, rfl⟩ := h
      obtain ⟨cs, rfl, hcs⟩ := sound_readQuoted htext
      exact ⟨cs, rfl, .string hcs⟩
    split at h
    next hopen =>
      simp only [Option.map_eq_some_iff, Prod.exists, Prod.mk.injEq] at h
      obtain ⟨items, _, hitems, rfl, rfl⟩ := h
      obtain ⟨cs, htail, hcs⟩ := ih.spaced.upTo hitems
      refine ⟨'[' :: cs ++ [']'], ?_, ?_⟩
      · rw [List.eq_cons_of_mem_head? hopen, htail]
        simp
      · obtain ⟨rfl, hspace⟩ | hlisted := hcs
        · exact .emptyArray hspace
        · exact .array hlisted
    split at h
    next hopen =>
      simp only [Option.map_eq_some_iff, Prod.exists, Prod.mk.injEq] at h
      obtain ⟨members, _, hmembers, rfl, rfl⟩ := h
      obtain ⟨cs, htail, hcs⟩ := ih.member.upTo hmembers
      refine ⟨'\x7b' :: cs ++ ['\x7d'], ?_, ?_⟩
      · rw [List.eq_cons_of_mem_head? hopen, htail]
        simp
      · obtain ⟨rfl, hspace⟩ | hlisted := hcs
        · exact .emptyObject hspace
        · exact .object hlisted
    exact sound_readScalar h

/-- What the reader reads is a document. -/
theorem isDocument_of_read? {text : String} {v : Value} (h : read? text = some v) : IsDocument text v := by
  rw [read?] at h
  split at h
  next hread =>
    obtain rfl := Option.some.inj h
    obtain ⟨cs, hcs, hwrites⟩ := (sound_readValue _).spaced hread
    rw [List.append_nil] at hcs
    rwa [IsDocument, hcs]
  next => exact nomatch h

end ArithLang.Json
