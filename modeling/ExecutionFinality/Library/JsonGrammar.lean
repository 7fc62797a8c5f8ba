import Mathlib.Algebra.Field.Rat
import ExecutionFinality.Library.JsonReader
import ExecutionFinality.Library.JsonUnambiguous

/-! The grammar of JSON text, and that the reader finds in every text the value it is a text of. -/
namespace ExecutionFinality

namespace JsonDoc

def Blank (w : List Char) : Prop := ∀ c ∈ w, blank c

/-- What may follow a value -/
def Stops (r : List Char) : Prop := ∀ c ∈ r.head?, blank c ∨ c = ',' ∨ c = ']' ∨ c = '}'

/-- The units of a string, each as a character or as an escape -/
inductive SpellsUnits : List UInt16 → List Char → Prop
  | nil : SpellsUnits [] []
  | plain {us : List UInt16} {q : List Char} {c : Char} (hc : 32 ≤ c.toNat) (hq : c ≠ '"') (hb : c ≠ '\\')
      (h : SpellsUnits us q) : SpellsUnits (Utf16.encodeChar c ++ us) (c :: q)
  | short {us : List UInt16} {q : List Char} {e : Char} {u : UInt16} (he : escape? e = some u) (h : SpellsUnits us q) :
    SpellsUnits (u :: us) ('\\' :: e :: q)
  | hex {us : List UInt16} {q : List Char} {a b c d : Char} {u : UInt16} (hu : hexUnit? a b c d = some u)
      (h : SpellsUnits us q) : SpellsUnits (u :: us) ('\\' :: 'u' :: a :: b :: c :: d :: q)

section
variable {α : Type}

/-- The rest of a listing after an item -/
inductive Tail (P : α → List Char → Prop) (close : Char) : List α → List Char → Prop
  | done {w : List Char} (hw : Blank w) : Tail P close [] (w ++ [close])
  | item {x : α} {xs : List α} {w w' p t : List Char} (hw : Blank w) (hw' : Blank w') (hp : P x p)
      (ht : Tail P close xs t) : Tail P close (x :: xs) (w ++ ',' :: w' ++ p ++ t)

/-- A listing after its opening bracket -/
inductive Listing (P : α → List Char → Prop) (close : Char) : List α → List Char → Prop
  | none {w : List Char} (hw : Blank w) : Listing P close [] (w ++ [close])
  | some {x : α} {xs : List α} {w p t : List Char} (hw : Blank w) (hp : P x p) (ht : Tail P close xs t) :
    Listing P close (x :: xs) (w ++ p ++ t)

inductive Member (P : α → List Char → Prop) : List UInt16 × α → List Char → Prop
  | mk {k : List UInt16} {x : α} {q w w' p : List Char} (hk : SpellsUnits k q) (hw : Blank w) (hw' : Blank w')
      (hp : P x p) : Member P (k,x) ('"' :: q ++ '"' :: w ++ ':' :: w' ++ p)

end

/-- The text spells the value. -/
inductive Spells : JsonDoc → List Char → Prop
  | null : Spells .null "null".toList
  | true : Spells (.bool true) "true".toList
  | false : Spells (.bool false) "false".toList
  | num (n : JsonNumber) : Spells (.num n) n.text
  | str {u : List UInt16} {q : List Char} (h : SpellsUnits u q) : Spells (.str u) ('"' :: q ++ ['"'])
  | arr {xs : List JsonDoc} {q : List Char} (h : Listing Spells ']' xs q) : Spells (.arr xs) ('[' :: q)
  | obj {es : List (List UInt16 × JsonDoc)} {q : List Char} (h : Listing (Member Spells) '}' es q) :
    Spells (.obj es) ('{' :: q)

theorem skip_append {w s : List Char} (hw : Blank w) : skip (w ++ s) = skip s :=
  List.dropWhile_append_of_pos hw

theorem skip_cons {c : Char} {s : List Char} (h : blank c = false) : skip (c :: s) = c :: s := by
  rw [skip,List.dropWhile_cons_of_neg (by simp [h])]

theorem skip_blank {w : List Char} (hw : Blank w) : skip w = [] := by
  have := skip_append (s := []) hw
  rwa [List.append_nil] at this

@[simp] theorem blank_nil : Blank [] := by simp [Blank]

theorem stops_blank {w s : List Char} {c : Char} (hw : Blank w) (hc : c = ',' ∨ c = ']' ∨ c = '}') :
    Stops (w ++ c :: s) := by
  cases w with
  | nil => simpa [Stops] using .inr hc
  | cons b w => simpa [Stops] using .inl (hw b (List.mem_cons_self ..))

theorem stops_nil : Stops [] := by simp [Stops]

/-- What follows a value continues no number. -/
theorem Stops.head {r : List Char} (h : Stops r) : ∀ c ∈ r.head?, c.isDigit = false ∧ c ≠ '.' ∧ c ≠ 'e' ∧ c ≠ 'E' := by
  intro c hc
  rcases h c hc with hb | rfl | rfl | rfl
  · simp only [blank,Bool.or_eq_true,decide_eq_true_eq] at hb
    rcases hb with ((rfl | rfl) | rfl) | rfl <;> decide
  all_goals decide

/-! Numbers -/

theorem takeWhile_digits {ds r : List Char} (hd : ∀ c ∈ ds, c.isDigit = true) (hr : ∀ c ∈ r.head?, c.isDigit = false) :
    (ds ++ r).takeWhile Char.isDigit = ds ∧ (ds ++ r).dropWhile Char.isDigit = r := by
  rw [List.takeWhile_append_of_pos hd,List.dropWhile_append_of_pos hd]
  cases r with
  | nil => simp
  | cons c r =>
    have hc : ¬ c.isDigit = true := by simp [hr c rfl]
    rw [List.takeWhile_cons_of_neg hc,List.dropWhile_cons_of_neg hc,List.append_nil]
    exact ⟨rfl,rfl⟩

theorem digit_digitChar (d : Fin 10) : digit (Nat.digitChar d.val) = d ∧ (Nat.digitChar d.val).isDigit = true := by
  revert d
  decide

theorem readDigits_text (ds : List (Fin 10)) {r : List Char} (hr : ∀ c ∈ r.head?, c.isDigit = false) :
    readDigits (JsonNumber.digitsText ds ++ r) = (ds,r) := by
  have hd : ∀ c ∈ JsonNumber.digitsText ds, c.isDigit = true := by
    intro c hc
    obtain ⟨d,_,rfl⟩ := List.mem_map.mp hc
    exact (digit_digitChar d).2
  obtain ⟨ht,hdrop⟩ := takeWhile_digits hd hr
  rw [readDigits,ht,hdrop,JsonNumber.digitsText,List.map_map]
  have hid : (digit ∘ fun d : Fin 10 => Nat.digitChar d.val) = id := funext fun d => (digit_digitChar d).1
  rw [hid,List.map_id]

theorem toDigits_head {n : Nat} (hn : 0 < n) : ∃ c ds, Nat.toDigits 10 n = c :: ds ∧ c ≠ '0' := by
  induction n using Nat.strongRecOn with
  | _ n ih =>
    rw [Nat.toDigits_eq_if (by decide)]
    split
    · rename_i h
      have hc : ∀ d < 10, 0 < d → Nat.digitChar d ≠ '0' := by decide
      exact ⟨_,[],rfl,hc n h hn⟩
    · rename_i h
      obtain ⟨c,ds,he,hc⟩ := ih (n / 10) (by omega) (by omega)
      exact ⟨c,ds ++ [Nat.digitChar (n % 10)],by rw [he]; rfl,hc⟩

theorem readWhole_text {n : Nat} {r : List Char} (hr : ∀ c ∈ r.head?, c.isDigit = false) :
    readWhole (Nat.toDigits 10 n ++ r) = some (n,r) := by
  have hd : ∀ c ∈ Nat.toDigits 10 n, c.isDigit = true := fun c hc =>
    Nat.isDigit_of_mem_toDigits (by decide) (by decide) hc
  obtain ⟨ht,hdrop⟩ := takeWhile_digits hd hr
  rcases Nat.eq_zero_or_pos n with rfl | hn
  · rfl
  · obtain ⟨c,ds,he,hc⟩ := toDigits_head hn
    have hne : Nat.toDigits 10 n ≠ [] := Nat.toDigits_ne_nil
    rw [readWhole.eq_2 _ (by intro s hs; rw [he] at hs; exact hc (List.cons.inj hs).1),ht,hdrop,if_neg hne,
      Nat.ofDigitChars_ten_toDigits]

theorem readFraction_text (ds : List (Fin 10)) {r : List Char} (hr : ∀ c ∈ r.head?, c.isDigit = false ∧ c ≠ '.') :
    readFraction (JsonNumber.fractionText ds ++ r) = some (ds,r) := by
  rw [JsonNumber.fractionText]
  split
  · rename_i h
    rw [h,List.nil_append,readFraction.eq_2]
    rintro s rfl
    exact (hr '.' rfl).2 rfl
  · rename_i h
    have hds := readDigits_text ds fun c hc => (hr c hc).1
    rw [List.cons_append,readFraction,hds]
    exact if_neg h

theorem readExponentSign_text (sign : Option Bool) (d : Fin 10) (s : List Char) :
    readExponentSign (JsonExponent.signText sign ++ Nat.digitChar d.val :: s) = (sign,Nat.digitChar d.val :: s) := by
  have hd : Nat.digitChar d.val ≠ '+' ∧ Nat.digitChar d.val ≠ '-' := by
    revert d
    decide
  match sign with
  | none =>
    refine readExponentSign.eq_3 _ ?_ ?_
    · exact fun s hs => hd.1 (List.cons.inj hs).1
    · exact fun s hs => hd.2 (List.cons.inj hs).1
  | some false => rfl
  | some true => rfl

theorem readExponent_text {e : Option JsonExponent} {r : List Char}
    (hr : ∀ c ∈ r.head?, c.isDigit = false ∧ c ≠ 'e' ∧ c ≠ 'E') :
    readExponent (JsonNumber.exponentText e ++ r) = some (e,r) := by
  cases e with
  | none =>
    cases r with
    | nil => rfl
    | cons c r =>
      obtain ⟨_,he,hE⟩ := hr c rfl
      exact if_neg (by simp [he,hE])
  | some e =>
    obtain ⟨capital,sign,first,rest⟩ := e
    have hds := readDigits_text (first :: rest) fun c hc => (hr c hc).1
    have hsign := readExponentSign_text sign first (JsonNumber.digitsText rest ++ r)
    rw [JsonNumber.digitsText,List.map_cons,List.cons_append] at hds
    simp only [JsonNumber.exponentText,JsonExponent.text,JsonNumber.digitsText,List.map_cons,List.cons_append,
      List.append_assoc,readExponent]
    simp only [JsonNumber.digitsText] at hsign hds
    cases capital <;> simp [hsign,hds]

theorem readNumber_text {n : JsonNumber} {r : List Char} (hr : Stops r) : readNumber (n.text ++ r) = some (n,r) := by
  obtain ⟨negative,whole,fraction,exponent⟩ := n
  have hhead := hr.head
  have hexponent := readExponent_text (e := exponent) fun c hc => ⟨(hhead c hc).1,(hhead c hc).2.2⟩
  have hafter : ∀ c ∈ (JsonNumber.exponentText exponent ++ r).head?, c.isDigit = false ∧ c ≠ '.' := by
    cases exponent with
    | none => exact fun c hc => ⟨(hhead c hc).1,(hhead c hc).2.1⟩
    | some e =>
      intro c hc
      cases hc
      cases e.capital <;> decide
  have hfraction := readFraction_text fraction hafter
  have hpoint : ∀ c ∈ (JsonNumber.fractionText fraction ++ (JsonNumber.exponentText exponent ++ r)).head?,
      c.isDigit = false := by
    rw [JsonNumber.fractionText]
    split
    · exact fun c hc => (hafter c hc).1
    · intro c hc
      cases hc
      rfl
  have hwhole := readWhole_text (n := whole) hpoint
  have hsign : readSign ((if negative then ['-'] else []) ++ (Nat.toDigits 10 whole ++
      (JsonNumber.fractionText fraction ++ (JsonNumber.exponentText exponent ++ r)))) =
      (negative,Nat.toDigits 10 whole ++ (JsonNumber.fractionText fraction ++ (JsonNumber.exponentText exponent ++ r))) := by
    cases negative with
    | true => rfl
    | false => exact readSign.eq_2 _ fun s hs => Json.digits_head _ _ _ hs
  simp only [readNumber,JsonNumber.text,List.append_assoc,hsign,hwhole,hfraction,hexponent,Option.bind_eq_bind,
    Option.bind_some,Option.pure_def]

/-! Strings -/

theorem readUnits_plain {c : Char} {s : List Char} (hq : c ≠ '"') (hb : c ≠ '\\') : readUnits (c :: s) =
    if c.toNat < 32 then none else (readUnits s).bind fun p => some (Utf16.encodeChar c ++ p.1,p.2) := by
  rw [readUnits.eq_def]
  split <;> simp_all

theorem readUnits_text {u : List UInt16} {q r : List Char} (h : SpellsUnits u q) :
    readUnits (q ++ '"' :: r) = some (u,r) := by
  induction h with
  | nil => rfl
  | plain hc hq hb _ ih => rw [List.cons_append,readUnits_plain hq hb,if_neg (by omega),ih,Option.bind_some]
  | @short us q e u he _ ih =>
    have hu : e ≠ 'u' := by
      rintro rfl
      cases he
    rw [List.cons_append,List.cons_append,readUnits.eq_4 _ _ fun a b c d s h => absurd h hu,he,ih]
    rfl
  | hex hu _ ih =>
    simp only [List.cons_append,readUnits,hu,ih]
    rfl

/-! Listings, for any reader of their items -/
section
variable {α : Type} {P : α → List Char → Prop} {item : List Char → Option (α × List Char)} {close : Char} {n : Nat}

/-- The reader finds the items of texts shorter than `n`, also in front of further text. -/
def Finds (P : α → List Char → Prop) (item : List Char → Option (α × List Char)) (n : Nat) : Prop :=
  ∀ x p r, P x p → p.length < n → Stops r → item (p ++ r) = some (x,r)

/-- Texts of items begin with a character that neither white space nor a closing bracket does. -/
def Leads (P : α → List Char → Prop) : Prop :=
  ∀ x p, P x p → ∃ c s, p = c :: s ∧ blank c = false ∧ c ≠ ']' ∧ c ≠ '}'

variable (hclose : close = ']' ∨ close = '}')
include hclose

theorem stops_tail {xs : List α} {t r : List Char} (ht : Tail P close xs t) : Stops (t ++ r) := by
  cases ht with
  | done hw =>
    rw [List.append_assoc]
    exact stops_blank hw (.inr hclose)
  | item hw =>
    simp only [List.append_assoc,List.cons_append]
    exact stops_blank hw (.inl rfl)

theorem readTail_text (hfind : Finds P item n) (hlead : Leads P) (k : Nat) : ∀ {xs : List α} {t r : List Char},
    Tail P close xs t → t.length < k → t.length < n → readTail item close k (t ++ r) = some (xs,r) := by
  have hblank : blank close = false := by
    rcases hclose with rfl | rfl <;> rfl
  have hcomma : ',' ≠ close := by
    rcases hclose with rfl | rfl <;> decide
  induction k with
  | zero => exact fun _ hk => absurd hk (Nat.not_lt_zero _)
  | succ k ih =>
    intro xs t r ht hk hn
    cases ht with
    | done hw =>
      rw [List.append_assoc,readTail,skip_append hw,List.singleton_append,skip_cons hblank]
      exact if_pos rfl
    | @item x xs w w' p t hw hw' hp ht =>
      obtain ⟨c,s,rfl,hc,_⟩ := hlead x p hp
      simp only [List.length_append,List.length_cons] at hk hn
      have hitem := hfind x (c :: s) (t ++ r) hp (by simp only [List.length_cons]; omega) (stops_tail hclose ht)
      have htail := ih ht (r := r) (by omega) (by omega)
      simp only [List.append_assoc,List.cons_append] at hitem ⊢
      rw [readTail,skip_append hw,skip_cons rfl]
      simp only [if_neg hcomma,if_true,skip_append hw',skip_cons hc,hitem,htail,Option.bind_eq_bind,Option.bind_some,
        Option.pure_def]

theorem readListing_text (hfind : Finds P item n) (hlead : Leads P) {k : Nat} {xs : List α} {q r : List Char}
    (h : Listing P close xs q) (hk : q.length < k) (hn : q.length < n) :
    readListing item close k (q ++ r) = some (xs,r) := by
  have hblank : blank close = false := by
    rcases hclose with rfl | rfl <;> rfl
  cases h with
  | none hw =>
    rw [List.append_assoc,readListing,skip_append hw,List.singleton_append,skip_cons hblank]
    exact if_pos rfl
  | @some x xs w p t hw hp ht =>
    obtain ⟨c,s,rfl,hc,hbracket,hbrace⟩ := hlead x p hp
    have hne : c ≠ close := by
      rcases hclose with rfl | rfl
      · exact hbracket
      · exact hbrace
    simp only [List.length_append,List.length_cons] at hk hn
    have hitem := hfind x (c :: s) (t ++ r) hp (by simp only [List.length_cons]; omega) (stops_tail hclose ht)
    have htail := readTail_text hclose hfind hlead k ht (r := r) (by omega) (by omega)
    simp only [List.append_assoc,List.cons_append] at hitem ⊢
    rw [readListing,skip_append hw,skip_cons hc]
    simp only [if_neg hne,hitem,htail,Option.bind_eq_bind,Option.bind_some,Option.pure_def]

omit hclose in
theorem finds_member (hfind : Finds P item n) (hlead : Leads P) : Finds (Member P) (readMember item) n := by
  rintro _ _ r (@⟨k,x,q,w,w',p,hq,hw,hw',hp⟩) hn hr
  obtain ⟨c,s,rfl,hc,_⟩ := hlead x p hp
  simp only [List.length_append,List.length_cons] at hn
  have hitem := hfind x (c :: s) r hp (by simp only [List.length_cons]; omega) hr
  simp only [List.append_assoc,List.cons_append] at hitem ⊢
  rw [readMember,readUnits_text hq]
  simp only [Option.bind_eq_bind,Option.bind_some,skip_append hw,skip_cons (c := ':') rfl,skip_append hw',skip_cons hc,
    hitem,Option.pure_def]

omit hclose in
theorem leads_member : Leads (Member P) := by
  rintro _ _ ⟨⟩
  exact ⟨_,_,rfl,rfl,by decide,by decide⟩

end

theorem lead_number (n : JsonNumber) : ∃ c s, n.text = c :: s ∧ (c = '-' ∨ c.isDigit = true) := by
  obtain ⟨negative,whole,fraction,exponent⟩ := n
  cases negative with
  | true => exact ⟨'-',_,rfl,.inl rfl⟩
  | false =>
    obtain ⟨c,s,hs⟩ := List.exists_cons_of_ne_nil (Nat.toDigits_ne_nil (n := whole) (b := 10))
    have hc : c.isDigit := Nat.isDigit_of_mem_toDigits (b := 10) (n := whole) (by decide) (by decide) (by rw [hs]; simp)
    exact ⟨c,s ++ (JsonNumber.fractionText fraction ++ JsonNumber.exponentText exponent),by simp [JsonNumber.text,hs],.inr hc⟩

theorem leads_spells : Leads Spells := by
  intro d p h
  cases h with
  | num n =>
    obtain ⟨c,s,hs,hc⟩ := lead_number n
    refine ⟨c,s,hs,?_⟩
    have ne {b : Char} (hb : (b = '-' ∨ b.isDigit = true) = False) : c ≠ b := fun he => (hb ▸ he ▸ hc : False)
    simp [blank,ne]
  | _ => exact ⟨_,_,rfl,rfl,by decide,by decide⟩

theorem readValue_number {k : Nat} {c : Char} {s : List Char} (hc : c = '-' ∨ c.isDigit = true) :
    readValue (k+1) (c :: s) = (readNumber (c :: s)).map fun (n,s) => (.num n,s) := by
  rw [readValue]
  all_goals
    intro s he
    obtain ⟨rfl,_⟩ := List.cons.inj he
    exact absurd hc (by decide)

/-- In a text that is longer than its own value, the reader finds it. -/
theorem readValue_text (n : Nat) : Finds Spells (readValue n) n := by
  induction n with
  | zero => exact fun _ _ _ _ hn => absurd hn (Nat.not_lt_zero _)
  | succ n ih =>
    intro d p r h hn hr
    cases h with
    | null | true | false => rfl
    | num m =>
      obtain ⟨c,s,hs,hc⟩ := lead_number m
      have hm := readNumber_text (n := m) hr
      rw [hs,List.cons_append] at hm ⊢
      rw [readValue_number hc,hm]
      rfl
    | str h =>
      simp only [List.append_assoc,List.cons_append,List.nil_append,readValue,readUnits_text h,Option.map_some]
    | arr h =>
      have hlisting := readListing_text (.inl rfl) ih leads_spells (k := n) (r := r) h (Nat.lt_of_succ_lt_succ hn)
        (Nat.lt_of_succ_lt_succ hn)
      rw [List.cons_append,readValue,hlisting]
      rfl
    | obj h =>
      have hlisting := readListing_text (.inr rfl) (finds_member ih leads_spells) leads_member (k := n) (r := r) h
        (Nat.lt_of_succ_lt_succ hn) (Nat.lt_of_succ_lt_succ hn)
      rw [List.cons_append,readValue,hlisting]
      rfl

/-- A text of a value is read as that value, with white space around it and whatever follows. -/
theorem readFirst_text {d : JsonDoc} {w p r : List Char} (hw : Blank w) (h : Spells d p) (hr : Stops r) :
    readFirst (w ++ p ++ r) = some (d,r) := by
  obtain ⟨c,s,rfl,hc,_⟩ := leads_spells d p h
  rw [readFirst,List.append_assoc,skip_append hw,List.cons_append,skip_cons hc]
  exact readValue_text _ d (c :: s) r h (by simp only [List.length_append,List.length_cons]; omega) hr

theorem read_text {d : JsonDoc} {w p w' : List Char} (hw : Blank w) (h : Spells d p) (hw' : Blank w') :
    read (w ++ p ++ w') = some d := by
  have hr : Stops w' := by
    intro c hc
    exact .inl (hw' c (List.mem_of_mem_head? hc))
  rw [read,readFirst_text hw h hr]
  simp [skip_blank hw']

end JsonDoc

/-! The numbers that are integers -/
namespace JsonNumber
variable {n : JsonNumber}

theorem text_injective : Function.Injective text := by
  intro m n h
  have hm := JsonDoc.readNumber_text (n := m) JsonDoc.stops_nil
  rw [h,JsonDoc.readNumber_text JsonDoc.stops_nil] at hm
  exact (Prod.mk.inj (Option.some.inj hm)).1.symm

theorem value_of_isInteger (h : n.IsInteger) : n.value = n.int := by
  obtain ⟨negative,whole,fraction,exponent⟩ := n
  obtain ⟨rfl,rfl⟩ := h
  cases negative <;> simp [value,int,ofDigits]

theorem text_of_isInteger (h : n.IsInteger) (hz : n ≠ .minusZero) : n.text = Json.printInt n.int := by
  obtain ⟨negative,whole,fraction,exponent⟩ := n
  obtain ⟨rfl,rfl⟩ := h
  cases negative with
  | false => simp [text,int,fractionText,exponentText,Json.printInt]
  | true =>
    cases whole with
    | zero => exact absurd rfl hz
    | succ k =>
      have hint : int ⟨true,k+1,[],none⟩ = .negSucc k := by simp [int,Int.negSucc_eq]
      simp [text,hint,fractionText,exponentText,Json.printInt]

theorem isDigit_digitsText {ds : List (Fin 10)} : ∀ c ∈ digitsText ds, c.isDigit = true := by
  have digit : ∀ d : Fin 10, (Nat.digitChar d.val).isDigit = true := by decide
  intro c hc
  obtain ⟨d,_,rfl⟩ := List.mem_map.mp hc
  exact digit d

theorem isInteger_ofInt (z : Int) : (ofInt z).IsInteger := ⟨rfl,rfl⟩

theorem int_ofInt (z : Int) : (ofInt z).int = z := by
  unfold int ofInt
  simp only [decide_eq_true_eq]
  split_ifs <;> omega

theorem ofInt_ne_minusZero (z : Int) : ofInt z ≠ minusZero := by
  intro h
  have hz := congrArg int h
  have hs := congrArg negative h
  rw [int_ofInt] at hz
  cases hz
  cases hs

theorem text_ofInt (z : Int) : (ofInt z).text = Json.printInt z := by
  rw [text_of_isInteger (isInteger_ofInt z) (ofInt_ne_minusZero z),int_ofInt]

end JsonNumber
end ExecutionFinality
