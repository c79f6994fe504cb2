import CallByNeed.Proofs.CanonicalForm
import Mathlib.Algebra.BigOperators.Intervals
import Mathlib.Algebra.BigOperators.Ring.Finset
import Mathlib.Tactic.Ring

set_option autoImplicit false

/-!
Integers as texts.

An integer goes through texts by its wire form. Whatever the texts are, if the reader finds
the wire form that was written, an integer comes back as it was, and any words and any sign
give the canonical integer that they denote.

JSON is one such pair of writer and reader. A text is a sequence of tokens with blanks around
them, and a reader takes its tokens off the front wherever blanks stand. So an object with
any words and any sign is read, with its members in either order, and what is written is such
an object.
-/

namespace CallByNeed

namespace Json

/-! Tokens -/

/-- The tokens in their order, with any blanks before, between and after them. -/
inductive Spaced : List (List Char) → List Char → Prop where
  | done {blanks : List Char} : blanks.all isBlank = true → Spaced [] blanks
  | token {blanks token rest : List Char} {tokens : List (List Char)} :
      blanks.all isBlank = true → Spaced tokens rest →
      Spaced (token :: tokens) (blanks ++ (token ++ rest))

theorem Spaced.cons {rest : List Char} {tokens : List (List Char)} (token : List Char)
    (spaced : Spaced tokens rest) : Spaced (token :: tokens) (token ++ rest) :=
  .token (show ([] : List Char).all isBlank = true from rfl) spaced

theorem spaced_flatten (tokens : List (List Char)) : Spaced tokens tokens.flatten := by
  induction tokens with
  | nil => exact .done rfl
  | cons token tokens ih => exact ih.cons token

section Spaced

variable {c : Char} {token cs : List Char} {tokens : List (List Char)}

theorem skipBlanks_append {blanks : List Char} (blank : blanks.all isBlank = true)
    (solid : isBlank c = false) (rest : List Char) :
    skipBlanks (blanks ++ c :: rest) = c :: rest := by
  rw [skipBlanks, List.dropWhile_append_of_pos (List.all_eq_true.mp blank),
    List.dropWhile_cons_of_neg (by simp [solid])]

theorem Spaced.skipBlanks (spaced : Spaced ((c :: token) :: tokens) cs)
    (solid : isBlank c = false) :
    ∃ rest, Json.skipBlanks cs = c :: (token ++ rest) ∧ Spaced tokens rest := by
  cases spaced with
  | token blank spaced => exact ⟨_, skipBlanks_append blank solid _, spaced⟩

theorem Spaced.expect (spaced : Spaced ([c] :: tokens) cs) (solid : isBlank c = false) :
    ∃ rest, Json.expect c cs = some rest ∧ Spaced tokens rest := by
  obtain ⟨rest, skipped, spaced⟩ := spaced.skipBlanks solid
  exact ⟨rest, by simp [Json.expect, skipped], spaced⟩

theorem Spaced.skipped (spaced : Spaced ((c :: token) :: tokens) cs) (solid : isBlank c = false) :
    Spaced ((c :: token) :: tokens) (Json.skipBlanks cs) := by
  obtain ⟨rest, skipped, spaced⟩ := spaced.skipBlanks solid
  rw [skipped]
  exact spaced.cons (c :: token)

theorem Spaced.length_le {rest : List (List Char)} (spaced : Spaced (tokens ++ rest) cs)
    (nonempty : [] ∉ tokens) : tokens.length ≤ cs.length := by
  induction tokens generalizing cs with
  | nil => exact Nat.zero_le _
  | cons token tokens ih =>
    rw [List.mem_cons, not_or] at nonempty
    cases spaced with
    | token _ spaced =>
      have := ih spaced nonempty.2
      have := List.length_pos_iff.mpr (Ne.symm nonempty.1)
      simp only [List.length_append, List.length_cons]
      omega

end Spaced

/-! Numbers -/

theorem head?_toDigits {n : Nat} (positive : 0 < n) : (Nat.toDigits 10 n).head? ≠ some '0' := by
  induction n using Nat.strongRecOn with
  | _ n ih =>
    by_cases small : n < 10
    · have digits : ∀ d < 10, 0 < d → d.digitChar ≠ '0' := by decide
      rw [Nat.toDigits_of_lt_base small, List.head?_cons, Ne, Option.some_inj]
      exact digits n small positive
    · rw [Nat.toDigits_of_base_le (by decide) (by omega),
        List.head?_append_of_ne_nil _ Nat.toDigits_ne_nil]
      exact ih (n / 10) (by omega) (by omega)

theorem isDigit_toDigits {n : Nat} : ∀ c ∈ Nat.toDigits 10 n, c.isDigit = true :=
  fun _ => Nat.isDigit_of_mem_toDigits (by decide) (by decide)

theorem readDigits_toDigits (n : Nat) {rest : List Char}
    (ends : ∀ c, rest.head? = some c → c.isDigit = false) :
    readDigits (Nat.toDigits 10 n ++ rest) = (Nat.toDigits 10 n, rest) := by
  have stops : rest.takeWhile Char.isDigit = [] ∧ rest.dropWhile Char.isDigit = rest := by
    cases rest with
    | nil => exact ⟨rfl, rfl⟩
    | cons c rest => simp [ends c rfl]
  rw [readDigits, List.span_eq_takeWhile_dropWhile, List.takeWhile_append_of_pos isDigit_toDigits,
    List.dropWhile_append_of_pos isDigit_toDigits, stops.1, stops.2, List.append_nil]

theorem readWhole_toDigits (n : Nat) {rest : List Char}
    (ends : ∀ c, rest.head? = some c → c.isDigit = false) :
    readWhole (Nat.toDigits 10 n ++ rest) = some (Nat.toDigits 10 n, rest) := by
  rw [readWhole, readDigits_toDigits n ends]
  split
  · next none => exact absurd (Prod.mk.inj none).1 Nat.toDigits_ne_nil
  · next zeros =>
    have digits := (Prod.mk.inj zeros).1
    rcases Nat.eq_zero_or_pos n with rfl | positive
    · cases digits
    · exact absurd (by rw [digits]; rfl) (head?_toDigits positive)
  · next split => rw [split]

theorem foldl_toDigits (n : Nat) :
    (Nat.toDigits 10 n).foldl (fun n c => n * 10 + (c.toNat - '0'.toNat)) 0 = n := by
  have value := Nat.ofDigitChars_ten_toDigits (n := n)
  rw [Nat.ofDigitChars_eq_foldl] at value
  simpa only [Nat.mul_comm 10] using value

def numberToken (n : Int32) : List Char := (toString n.toInt).toList

/-- The characters that can stand after a number. -/
def IsCloser (c : Char) : Prop := c = ',' ∨ c = ']' ∨ c = '\x7d'

theorem IsCloser.solid {c : Char} (closer : IsCloser c) : isBlank c = false := by
  rcases closer with rfl | rfl | rfl <;> decide

/-- Where these tokens come first and something closes them, the reader takes them all and
gives this value. -/
def Consumes {α : Type} (read : Reader α) (value : α) (tokens : List (List Char)) : Prop :=
  ∀ {closer : Char} {rest : List (List Char)} {cs : List Char}, IsCloser closer →
    Spaced (tokens ++ [closer] :: rest) cs →
    ∃ cs', read cs = some (value, cs') ∧ Spaced ([closer] :: rest) cs'

/-- No character of a number stands at the front. -/
def Ends (cs : List Char) : Prop :=
  ∀ c, cs.head? = some c → c.isDigit = false ∧ c ≠ '.' ∧ c ≠ 'e' ∧ c ≠ 'E'

theorem Spaced.ends {closer : Char} {rest : List (List Char)} {cs : List Char}
    (closes : IsCloser closer) (spaced : Spaced ([closer] :: rest) cs) : Ends cs := by
  intro c first
  cases spaced with
  | @token blanks _ _ _ blank _ =>
    cases blanks with
    | nil =>
      obtain rfl : closer = c := Option.some.inj first
      rcases closes with rfl | rfl | rfl <;> decide
    | cons b blanks =>
      obtain rfl : b = c := Option.some.inj first
      have blank : isBlank b = true := List.all_eq_true.mp blank b (List.mem_cons_self ..)
      simp only [isBlank, Bool.or_eq_true, beq_iff_eq] at blank
      rcases blank with ((rfl | rfl) | rfl) | rfl <;> decide

theorem head?_toDigits_append (n : Nat) (rest : List Char) :
    (Nat.toDigits 10 n ++ rest).head? ≠ some '-' := by
  rw [List.head?_append_of_ne_nil _ Nat.toDigits_ne_nil]
  intro first
  exact absurd (isDigit_toDigits _ (List.mem_of_head? first)) (by decide)

/-- A number that ends is read by its sign and its digits. -/
theorem readInt_digits {cs rest : List Char} {negative : Bool} {n : Nat}
    (skipped : skipBlanks cs = (if negative then ['-'] else []) ++ (Nat.toDigits 10 n ++ rest))
    (proper : negative = true → n ≠ 0) (ends : Ends rest) :
    readInt cs = some (if negative then -(n : Int) else n, rest) := by
  have stops : ∀ c, rest.head? = some c → c.isDigit = false := fun c first => (ends c first).1
  have sign : ((skipBlanks cs).head? == some '-') = negative := by
    rw [skipped]
    cases negative with
    | false => exact beq_eq_false_iff_ne.mpr (head?_toDigits_append _ _)
    | true => rfl
  have body : (if negative then (skipBlanks cs).tail else skipBlanks cs) =
      Nat.toDigits 10 n ++ rest := by
    rw [skipped]
    cases negative <;> rfl
  unfold readInt
  rw [sign]
  simp only [body, readWhole_toDigits n stops, foldl_toDigits]
  split
  · exact absurd rfl (ends '.' rfl).2.1
  · exact absurd rfl (ends 'e' rfl).2.2.1
  · exact absurd rfl (ends 'E' rfl).2.2.2
  · cases negative with
    | false => rfl
    | true => simp [proper rfl]

theorem exists_numberToken (n : Int32) : ∃ (negative : Bool) (k : Nat),
    numberToken n = (if negative then ['-'] else []) ++ Nat.toDigits 10 k ∧
      (negative = true → k ≠ 0) ∧ n.toInt = if negative then -(k : Int) else k := by
  rw [numberToken, Int.toString_eq_repr, Int.repr_eq_if]
  generalize n.toInt = n
  split
  · exact ⟨false, n.toNat, by simp [Nat.repr_eq_ofList_toDigits], nofun, by simp; omega⟩
  · exact ⟨true, (-n).toNat, by simp [Nat.repr_eq_ofList_toDigits], by omega, by simp; omega⟩

theorem exists_cons_numberToken (n : Int32) :
    ∃ c cs, numberToken n = c :: cs ∧ isBlank c = false ∧ c ≠ ']' := by
  obtain ⟨negative, k, token, -, -⟩ := exists_numberToken n
  cases negative with
  | true => exact ⟨'-', _, token, by decide, by decide⟩
  | false =>
    cases digits : Nat.toDigits 10 k with
    | nil => exact absurd digits Nat.toDigits_ne_nil
    | cons c cs =>
      have digit : c.isDigit = true := isDigit_toDigits c (by rw [digits]; simp)
      refine ⟨c, cs, token.trans (by simp [digits]), ?_, ?_⟩
      · rw [← Bool.not_eq_true, isBlank]
        intro blank
        simp only [Bool.or_eq_true, beq_iff_eq] at blank
        rcases blank with ((rfl | rfl) | rfl) | rfl <;> exact absurd digit (by decide)
      · rintro rfl
        exact absurd digit (by decide)

theorem consumes_readInt32 (n : Int32) : Consumes readInt32 n [numberToken n] := by
  intro closer rest cs closes spaced
  obtain ⟨c, token, first, solid, -⟩ := exists_cons_numberToken n
  obtain ⟨negative, k, split, proper, value⟩ := exists_numberToken n
  obtain ⟨after, skipped, spaced⟩ : ∃ after, skipBlanks cs = numberToken n ++ after ∧
      Spaced ([closer] :: rest) after := by
    rw [first] at spaced ⊢
    exact spaced.skipBlanks solid
  rw [split, List.append_assoc] at skipped
  have read := readInt_digits skipped proper (spaced.ends closes)
  rw [← value] at read
  have range : -0x80000000 ≤ n.toInt ∧ n.toInt < 0x80000000 := ⟨n.le_toInt, n.toInt_lt⟩
  refine ⟨after, ?_, spaced⟩
  simp [readInt32, read, range]

/-! Arrays -/

/-- Numbers with commas between them up to the end of the array. -/
def itemTokens : List Int32 → List (List Char)
  | [] => [[']']]
  | [n] => [numberToken n, [']']]
  | n :: ns => numberToken n :: [','] :: itemTokens ns

theorem nil_not_mem_itemTokens (ns : List Int32) : [] ∉ itemTokens ns := by
  have solid (n : Int32) : [] ≠ numberToken n := by
    obtain ⟨c, cs, first, -⟩ := exists_cons_numberToken n
    simp [first]
  induction ns with
  | nil => simp [itemTokens]
  | cons n ns ih =>
    cases ns with
    | nil => simp [itemTokens, solid]
    | cons m ns => simpa [itemTokens, solid] using ih

theorem length_itemTokens (ns : List Int32) : ns.length ≤ (itemTokens ns).length := by
  induction ns with
  | nil => exact Nat.zero_le _
  | cons n ns ih =>
    cases ns with
    | nil => simp [itemTokens]
    | cons m ns =>
      simp only [itemTokens, List.length_cons] at ih ⊢
      omega

theorem readItems_itemTokens {ns : List Int32} (nonempty : ns ≠ []) {fuel : Nat}
    (enough : ns.length ≤ fuel) {rest : List (List Char)} {cs : List Char}
    (spaced : Spaced (itemTokens ns ++ rest) cs) :
    ∃ after, readItems readInt32 fuel cs = some (ns, after) ∧ Spaced rest after := by
  induction ns generalizing fuel cs with
  | nil => contradiction
  | cons n ns ih =>
    obtain ⟨fuel, rfl⟩ : ∃ k, fuel = k + 1 := ⟨fuel - 1, by simp at enough; omega⟩
    cases ns with
    | nil =>
      obtain ⟨after, item, spaced⟩ := consumes_readInt32 n (.inr (.inl rfl)) spaced
      obtain ⟨after, skipped, spaced⟩ := spaced.skipBlanks (by decide)
      exact ⟨after, by simp [readItems, item, skipped], spaced⟩
    | cons m ns =>
      obtain ⟨after, item, spaced⟩ := consumes_readInt32 n (.inl rfl) spaced
      obtain ⟨after, skipped, spaced⟩ := spaced.skipBlanks (by decide)
      obtain ⟨after, items, spaced⟩ := ih (by simp) (by simpa using enough) spaced
      exact ⟨after, by simp [readItems, item, skipped, items], spaced⟩

theorem consumes_readArray (ns : List Int32) :
    Consumes (readArray readInt32) ns (['['] :: itemTokens ns) := by
  intro closer rest cs closes spaced
  obtain ⟨after, opened, spaced⟩ := spaced.expect (by decide)
  cases ns with
  | nil =>
    obtain ⟨after, skipped, spaced⟩ := spaced.skipBlanks (by decide)
    exact ⟨after, by simp [readArray, opened, skipped], spaced⟩
  | cons n ns =>
    obtain ⟨c, token, first, solid, apart⟩ := exists_cons_numberToken n
    obtain ⟨tokens, items⟩ : ∃ tokens, itemTokens (n :: ns) = (c :: token) :: tokens := by
      rw [← first]
      cases ns <;> exact ⟨_, rfl⟩
    have front : Spaced (itemTokens (n :: ns) ++ [closer] :: rest) (skipBlanks after) := by
      rw [items] at spaced ⊢
      exact spaced.skipped solid
    obtain ⟨_, skipped, _⟩ := (items ▸ spaced).skipBlanks solid
    have enough : (n :: ns).length ≤ (skipBlanks after).length + 1 := by
      have items := length_itemTokens (n :: ns)
      have bound := front.length_le (nil_not_mem_itemTokens _)
      omega
    obtain ⟨last, read, spaced⟩ := readItems_itemTokens (by simp) enough front
    refine ⟨last, ?_, spaced⟩
    simp only [readArray, opened, Option.bind_eq_bind, Option.bind_some]
    split
    · next closed =>
      rw [skipped] at closed
      exact absurd (List.cons.inj closed).1 apart
    · exact read

/-! Objects -/

def nameToken (name : String) : List Char := '"' :: (name.toList ++ ['"'])

/-- A character of a string that stands for itself. -/
def isPlain (c : Char) : Bool := c != '"' && c != '\\' && ' ' ≤ c

theorem readChars_plain {name : List Char} (plain : name.all isPlain = true) {fuel : Nat}
    (enough : name.length < fuel) (rest : List Char) :
    readChars fuel (name ++ '"' :: rest) = some (name, rest) := by
  induction name generalizing fuel with
  | nil =>
    obtain ⟨fuel, rfl⟩ : ∃ k, fuel = k + 1 := ⟨fuel - 1, by omega⟩
    rfl
  | cons c name ih =>
    obtain ⟨fuel, rfl⟩ : ∃ k, fuel = k + 1 := ⟨fuel - 1, by omega⟩
    rw [List.all_cons, Bool.and_eq_true] at plain
    have after := ih plain.2 (show name.length < fuel by simpa using enough)
    simp only [isPlain, Bool.and_eq_true, bne_iff_ne, decide_eq_true_eq] at plain
    obtain ⟨⟨⟨quote, escape⟩, visible⟩, -⟩ := plain
    rw [List.cons_append, readChars]
    · simp [after, Char.not_lt.mpr visible]
    all_goals grind

theorem Spaced.readString {name : String} (plain : name.toList.all isPlain = true)
    {tokens : List (List Char)} {cs : List Char} (spaced : Spaced (nameToken name :: tokens) cs) :
    ∃ rest, Json.readString cs = some (name.toList, rest) ∧ Spaced tokens rest := by
  obtain ⟨rest, skipped, spaced⟩ := spaced.skipBlanks (by decide)
  refine ⟨rest, ?_, spaced⟩
  rw [List.append_assoc, List.singleton_append] at skipped
  rw [Json.readString, Json.expect, skipped]
  exact readChars_plain plain (by simp) rest

section Fields

variable {α β : Type}

/-- A member of an object. -/
def memberTokens (name : String) (value : List (List Char)) : List (List Char) :=
  nameToken name :: [':'] :: value

/-- An object of two members. -/
def objectTokens (first second : List (List Char)) : List (List Char) :=
  ['\x7b'] :: (first ++ [','] :: (second ++ [['\x7d']]))

/-- The member at the front of the characters, and the characters after what closes it. -/
def Member (name : String) (read : Reader α) (value : α) (closer : Char)
    (cs after : List Char) : Prop :=
  ∃ named opened valued, readString cs = some (name.toList, named) ∧
    expect ':' named = some opened ∧ read opened = some (value, valued) ∧
    skipBlanks valued = closer :: after

theorem Spaced.member {name : String} (plain : name.toList.all isPlain = true) {read : Reader α}
    {value : α} {tokens rest : List (List Char)} (consumes : Consumes read value tokens)
    {closer : Char} (closes : IsCloser closer) {cs : List Char}
    (spaced : Spaced (memberTokens name tokens ++ [closer] :: rest) cs) :
    ∃ after, Member name read value closer cs after ∧ Spaced rest after := by
  obtain ⟨named, string, spaced⟩ := spaced.readString plain
  obtain ⟨opened, colon, spaced⟩ := spaced.expect (by decide)
  obtain ⟨valued, taken, spaced⟩ := consumes closes spaced
  obtain ⟨after, skipped, spaced⟩ := spaced.skipBlanks closes.solid
  exact ⟨after, ⟨named, opened, valued, string, colon, taken, skipped⟩, spaced⟩

/-- Two names that can be told apart. -/
structure Fields.Distinct (fields : Fields α β) : Prop where
  first : fields.firstName.toList.all isPlain = true
  second : fields.secondName.toList.all isPlain = true
  ne : fields.secondName.toList ≠ fields.firstName.toList

variable {fields : Fields α β} {a : α} {b : β} {fuel : Nat} {cs after : List Char}

theorem Member.readMembers_first {second? : Option β}
    (member : Member fields.firstName fields.readFirst a ',' cs after) :
    fields.readMembers (fuel + 1) none second? cs =
      fields.readMembers fuel (some a) second? after := by
  obtain ⟨named, opened, valued, string, colon, taken, skipped⟩ := member
  simp [Fields.readMembers, string, colon, taken, skipped]

theorem Member.readMembers_first_last
    (member : Member fields.firstName fields.readFirst a '\x7d' cs after) :
    fields.readMembers (fuel + 1) none (some b) cs = some ((a, b), after) := by
  obtain ⟨named, opened, valued, string, colon, taken, skipped⟩ := member
  simp [Fields.readMembers, string, colon, taken, skipped]

theorem Member.readMembers_second (distinct : fields.Distinct) {first? : Option α}
    (member : Member fields.secondName fields.readSecond b ',' cs after) :
    fields.readMembers (fuel + 1) first? none cs =
      fields.readMembers fuel first? (some b) after := by
  obtain ⟨named, opened, valued, string, colon, taken, skipped⟩ := member
  simp [Fields.readMembers, string, colon, taken, skipped, distinct.ne]

theorem Member.readMembers_second_last (distinct : fields.Distinct)
    (member : Member fields.secondName fields.readSecond b '\x7d' cs after) :
    fields.readMembers (fuel + 1) (some a) none cs = some ((a, b), after) := by
  obtain ⟨named, opened, valued, string, colon, taken, skipped⟩ := member
  simp [Fields.readMembers, string, colon, taken, skipped, distinct.ne]

/-- The texts of an object with two members, in either order. -/
def Spells (fields : Fields α β) (first second : List (List Char)) (text : String) : Prop :=
  Spaced (objectTokens (memberTokens fields.firstName first)
    (memberTokens fields.secondName second)) text.toList ∨
  Spaced (objectTokens (memberTokens fields.secondName second)
    (memberTokens fields.firstName first)) text.toList

/-- An object is read member by member, with fuel for two. -/
theorem Spaced.readMembers (fields : Fields α β) {name : String} {value tokens : List (List Char)}
    (spaced : Spaced (objectTokens (memberTokens name value) tokens) cs) :
    ∃ fuel inside, fields.read cs = fields.readMembers (fuel + 1 + 1) none none inside ∧
      Spaced (memberTokens name value ++ [','] :: (tokens ++ [['\x7d']])) inside := by
  obtain ⟨inside, opened, spaced⟩ := spaced.skipBlanks (by decide)
  have named : Spaced ([nameToken name] ++ ([':'] :: value ++ [','] :: (tokens ++ [['\x7d']])))
      inside := spaced
  have room : 1 ≤ inside.length := named.length_le (by simp [nameToken])
  refine ⟨inside.length - 1, inside, ?_, spaced⟩
  rw [Nat.sub_add_cancel room, Fields.read, opened]
  rfl

theorem ofText?_of_spells {first second : List (List Char)} {text : String}
    (distinct : fields.Distinct) (consumes : Consumes fields.readFirst a first)
    (consumes' : Consumes fields.readSecond b second) (spells : Spells fields first second text) :
    ofText? fields.read text = some (a, b) := by
  obtain ⟨after, read, blank⟩ : ∃ after, fields.read text.toList = some ((a, b), after) ∧
      Spaced [] after := by
    rcases spells with spaced | spaced
    · obtain ⟨fuel, inside, read, spaced⟩ := spaced.readMembers fields
      obtain ⟨middle, member, spaced⟩ := spaced.member distinct.first consumes (.inl rfl)
      obtain ⟨after, last, spaced⟩ := spaced.member distinct.second consumes' (.inr (.inr rfl))
      exact ⟨after, by rw [read, member.readMembers_first,
        last.readMembers_second_last distinct], spaced⟩
    · obtain ⟨fuel, inside, read, spaced⟩ := spaced.readMembers fields
      obtain ⟨middle, member, spaced⟩ := spaced.member distinct.second consumes' (.inl rfl)
      obtain ⟨after, last, spaced⟩ := spaced.member distinct.first consumes (.inr (.inr rfl))
      exact ⟨after, by rw [read, member.readMembers_second distinct,
        last.readMembers_first_last], spaced⟩
  cases blank with
  | done blank =>
    have skipped : skipBlanks after = [] := by
      have dropped : (after ++ []).dropWhile isBlank = [] :=
        List.dropWhile_append_of_pos (List.all_eq_true.mp blank)
      rwa [List.append_nil] at dropped
    simp [ofText?, read, skipped]

end Fields

end Json

/-! Integers -/

namespace Integer

open Json

namespace Wire

/-- The reader finds the wire form that was written. -/
def Faithful (write : Wire → String) (read : String → Option Wire) : Prop :=
  ∀ wire, read (write wire) = some wire

/-- The JSON texts of an object with these words and this sign: blanks anywhere between the
tokens, and the members in either order. -/
def SpelledBy (wire : Wire) (text : String) : Prop :=
  Spells wireFields (['['] :: itemTokens wire.words) [numberToken wire.sign] text

theorem distinct_wireFields : wireFields.Distinct := ⟨by decide, by decide, by decide⟩

theorem ofJson?_of_spelledBy {wire : Wire} {text : String} (spelled : wire.SpelledBy text) :
    ofJson? text = some wire := by
  rw [ofJson?, ofText?_of_spells distinct_wireFields (consumes_readArray wire.words)
    (consumes_readInt32 wire.sign) spelled]
  rfl

theorem flatten_itemTokens (ns : List Int32) :
    (itemTokens ns).flatten = [','].intercalate (ns.map numberToken) ++ [']'] := by
  induction ns with
  | nil => rfl
  | cons n ns ih =>
    cases ns with
    | nil => simp [itemTokens]
    | cons m ns =>
      have tokens : itemTokens (n :: m :: ns) = numberToken n :: [','] :: itemTokens (m :: ns) :=
        rfl
      rw [tokens, List.flatten_cons, List.flatten_cons, ih]
      simp [List.intercalate_cons_cons]

/-- What is written has no blanks and the words first. -/
theorem spelledBy_toJson (wire : Wire) : wire.SpelledBy wire.toJson := by
  have numbers : wire.words.map (String.toList ∘ writeWord) = wire.words.map numberToken := rfl
  have sign : (writeWord wire.sign).toList = numberToken wire.sign := rfl
  have text : wire.toJson.toList = (objectTokens (memberTokens "words" (['['] ::
      itemTokens wire.words)) (memberTokens "sign" [numberToken wire.sign])).flatten := by
    simp [toJson, writeFields, objectTokens, memberTokens, nameToken, flatten_itemTokens,
      numbers, sign]
  left
  rw [text]
  exact spaced_flatten _

theorem faithful_json : Faithful toJson ofJson? :=
  fun wire => ofJson?_of_spelledBy wire.spelledBy_toJson

end Wire

variable {a : Integer}

theorem Canonical.ofWire_toWire (canonical : a.Canonical) :
    ofWire a.toWire.words a.toWire.sign = a := by
  have sign : decide (a.fill.toInt32 < 0) = a.negative := by
    rw [fill]
    cases a.negative <;> decide
  have words : (a.words.map UInt32.toInt32).map Int32.toUInt32 = a.words := by
    rw [List.map_map]
    exact List.map_id _
  rw [toWire, ofWire, sign, words, make]
  exact congrArg (Integer.mk · a.negative) (trim_of_getLast? canonical)

theorem wordsToNat_eq_sum (words : List UInt32) : wordsToNat words =
    ∑ i ∈ Finset.range words.length, (words.getD i 0).toNat * 2 ^ (32 * i) := by
  induction words with
  | nil => rfl
  | cons w ws ih =>
    have tail (i : Nat) : ((w :: ws).getD (i + 1) 0).toNat * 2 ^ (32 * (i + 1)) =
        0x100000000 * ((ws.getD i 0).toNat * 2 ^ (32 * i)) := by
      rw [List.getD_cons_succ, Nat.mul_succ, Nat.pow_add]
      ring
    rw [wordsToNat, ih, List.length_cons, Finset.sum_range_succ', Finset.mul_sum,
      Finset.sum_congr rfl fun i _ => tail i]
    simp [Nat.add_comm]

theorem toInt_ofWire (words : List Int32) (sign : Int32) : (ofWire words sign).toInt =
    ∑ i ∈ Finset.range words.length, ((words.getD i 0).toUInt32.toNat : Int) * 2 ^ (32 * i) -
      if sign < 0 then 2 ^ (32 * words.length) else 0 := by
  have word (i : Nat) : (words.map Int32.toUInt32).getD i 0 = (words.getD i 0).toUInt32 := by
    rw [List.getD_eq_getElem?_getD, List.getElem?_map, List.getD_eq_getElem?_getD]
    cases words[i]? <;> rfl
  rw [ofWire, toInt_make, denote, wordsToNat_eq_sum, List.length_map]
  simp only [word, Nat.one_shiftLeft, decide_eq_true_eq]
  push_cast
  rfl

section Texts

variable {write : Wire → String} {read : String → Option Wire}

theorem deserialize?_of_read (wire : Wire) {text : String} (found : read text = some wire) :
    deserialize? read text = some (ofWire wire.words wire.sign) := by
  rw [deserialize?, found]
  rfl

theorem Canonical.deserialize?_serialize (faithful : Wire.Faithful write read)
    (canonical : a.Canonical) : deserialize? read (a.serialize write) = some a := by
  rw [serialize, deserialize?_of_read a.toWire (faithful _), canonical.ofWire_toWire]

end Texts

/-- With texts that are faithful to wire forms, an integer comes back from its text with the
same words and sign. Any words and any sign are read as the canonical integer that they
denote, however the text spells them, and so its own text is read alike. -/
theorem wire_reads_canonical {write : Wire → String} {read : String → Option Wire}
    (faithful : Wire.Faithful write read) :
    (∀ a : Integer, a.Canonical → deserialize? read (a.serialize write) = some a) ∧
    ∀ (words : List Int32) (sign : Int32), ∃ a : Integer, a.Canonical ∧
      a.toInt = ∑ i ∈ Finset.range words.length,
        ((words.getD i 0).toUInt32.toNat : Int) * 2 ^ (32 * i) -
          (if sign < 0 then 2 ^ (32 * words.length) else 0) ∧
      deserialize? read (write ⟨words, sign⟩) = some a ∧
      (∀ text, read text = some ⟨words, sign⟩ → deserialize? read text = some a) ∧
      ∀ b : Integer, b.Canonical → b.toInt = a.toInt →
        deserialize? read (b.serialize write) = some a := by
  refine ⟨fun a canonical => canonical.deserialize?_serialize faithful, fun words sign => ?_⟩
  have canonical : (ofWire words sign).Canonical := canonical_make _ _
  have spelled (text : String) (found : read text = some ⟨words, sign⟩) :
      deserialize? read text = some (ofWire words sign) := deserialize?_of_read ⟨words, sign⟩ found
  refine ⟨ofWire words sign, canonical, toInt_ofWire words sign, spelled _ (faithful _), spelled,
    fun b canonical' same => ?_⟩
  rw [canonical'.deserialize?_serialize faithful, canonical'.eq_of_toInt canonical same]

/-- Two words of padding, and a sign that is not the fill word, spelled with blanks and the
sign first. -/
theorem wire_reads_canonical_padded :
    let text := "\x7b \"sign\" : -2, \"words\" : [7, -1, -1] \x7d"
    Wire.Faithful Wire.toJson Wire.ofJson? ∧ Wire.ofJson? text = some ⟨[7, -1, -1], -2⟩ ∧
      (⟨[7], true⟩ : Integer).Canonical ∧ (⟨[7], true⟩ : Integer).toInt = 7 - 2 ^ 32 ∧
      deserialize? Wire.ofJson? text = some ⟨[7], true⟩ := by
  intro text
  have found : Wire.ofJson? text = some ⟨[7, -1, -1], -2⟩ := by decide +kernel
  have canonical : (⟨[7], true⟩ : Integer).Canonical := by decide
  obtain ⟨back, reads⟩ := wire_reads_canonical Wire.faithful_json
  obtain ⟨a, -, value, -, spelled, alike⟩ := reads [7, -1, -1] (-2)
  have same : (⟨[7], true⟩ : Integer).toInt = a.toInt := by
    rw [value]
    decide
  refine ⟨Wire.faithful_json, found, canonical, by decide, ?_⟩
  rw [spelled text found, ← alike _ canonical same, back _ canonical]

end Integer

end CallByNeed
