import HostPlan.Proofs.Source.Composition
import Mathlib.Data.List.Forall2
/-!
What a search finds, and where. Every chain is written in a span of the text of its own, one behind
the other, and neither its head nor that of a chain that is given up is part of a literal. The search
looks at the mask of the text and the reading at the text itself; both agree where the search finds
something, wherever it goes on.
-/
namespace HostPlan.Source

open Text

/-- A part of a text, from one position up to another. -/
structure Span where
  start : Nat
  stop : Nat
deriving DecidableEq, Repr

def Span.part (span : Span) (text : List Char) : List Char :=
  (text.drop span.start).take (span.stop - span.start)

def Span.Before (a b : Span) : Prop := a.stop ≤ b.start

/-- The character there is neither a quote nor part of a literal or of a comment. -/
structure Outside (text : List Char) (i : Nat) : Prop where
  plain : (Mode.code.after (text.take i)).IsPlain
  quote : ∀ c, text[i]? = some c → isQuote c = false

/-- The span holds whole words, and no part of a literal. -/
structure Stands (text : List Char) (span : Span) : Prop where
  outside : ∀ i, span.start ≤ i → i < span.stop → Outside text i
  before : ∀ c, (text.take span.start).getLast? = some c → isWord c = false
  behind : ∀ c, (text.drop span.stop).head? = some c → isWord c = false

/-- The chain is written in this span, and begins there with its head. -/
structure Spells (text : List Char) (c : Chain) (span : Span) : Prop where
  filled : span.start < span.stop
  inside : span.stop ≤ text.length
  raw : c.raw = String.ofList (span.part text)
  written : ∃ head tail, span.part text = head ++ tail ∧ Written c head tail ∧
    Stands text ⟨span.start, span.start + head.length⟩

/-- The quoted text begins with a head, which is written in this span. -/
structure GivenUp (text : List Char) (quoted : String) (span : Span) : Prop where
  filled : span.start < span.stop
  inside : span.stop ≤ text.length
  stands : Stands text span
  head : ∃ v base method, Head v base method (span.part text)
  quoted : quoted = String.ofList ((text.drop span.start).take snippetLength)

section Mask

variable {s : List Char}

theorem head?_masked (s : List Char) : (masked s).head? = s.head? := by
  cases s with
  | nil => rfl
  | cons c s =>
    cases hc : isQuote c with
    | false => rw [masked_cons hc]; rfl
    | true =>
      obtain ⟨m, hm⟩ := masked_quote hc s
      rw [hm]
      rfl

/-- The mask of a text without comments is the text itself outside of its literals. -/
theorem getElem?_masked (clean : Uncommented .code s) {i : Nat} (outside : Outside s i) :
    (masked s)[i]? = s[i]? := by
  have split : s.take i ++ s.drop i = s := List.take_append_drop i s
  by_cases short : s.length ≤ i
  · rw [List.getElem?_eq_none short, List.getElem?_eq_none (by rwa [length_masked])]
  · rw [← split] at clean
    have closed := clean.append.1.standsAt.isPlain_iff.1 outside.plain
    have length : (masked (s.take i)).length = i := by
      rw [length_masked, List.length_take]
      omega
    have shown : (masked s)[i]? = (masked (s.drop i)).head? := by
      rw [← split, masked_append closed, List.getElem?_append_right (by omega), length, Nat.sub_self,
        List.head?_eq_getElem?, split]
    rw [shown, head?_masked, List.head?_drop]

end Mask

section Spans

variable {x h z : List Char}

theorem Span.part_eq (x h z : List Char) :
    Span.part ⟨x.length, (x ++ h).length⟩ (x ++ (h ++ z)) = h := by
  rw [Span.part, List.drop_left, List.length_append, Nat.add_sub_cancel_left, List.take_left]

/-- Code without quotes lies outside of literals. -/
theorem outside_of_unquoted (clean : Uncommented .code (x ++ (h ++ z)))
    (closed : Place.code.after x = .code) (plain : Unquoted h) {i : Nat} (low : x.length ≤ i)
    (high : i < (x ++ h).length) : Outside (x ++ (h ++ z)) i := by
  rw [← List.append_assoc] at clean ⊢
  constructor
  · have split : (x ++ h ++ z).take i ++ (x ++ h ++ z).drop i = x ++ h ++ z :=
      List.take_append_drop i _
    have front : (x ++ h ++ z).take i = x ++ h.take (i - x.length) := by
      rw [List.take_append_of_le_length (by omega), List.take_append, List.take_of_length_le low]
    rw [← split] at clean
    rw [clean.append.1.standsAt.isPlain_iff, front, Place.after_append, closed]
    exact Place.after_code fun c hc => plain c (List.mem_of_mem_take hc)
  · intro c hc
    rw [List.getElem?_append_left high, List.getElem?_append_right low] at hc
    exact plain c (List.mem_of_getElem? hc)

/-- A head that a mask shows behind a character that is no part of a word. -/
theorem stands_of_masked {base method m : List Char} {v : Option (List Char)}
    (clean : Uncommented .code (x ++ (h ++ z))) (closed : Place.code.after x = .code)
    (head : Head v base method h) (before : ∀ c, x.getLast? = some c → isWord c = false)
    (hz : masked z = m) (behind : ∀ c, m.head? = some c → isWord c = false) :
    Stands (x ++ (h ++ z)) ⟨x.length, (x ++ h).length⟩ where
  outside i low high := outside_of_unquoted clean closed head.unquoted low high
  before c hc := before c (by rwa [List.take_left] at hc)
  behind c hc := behind c (by rwa [← List.append_assoc, List.drop_left, ← head?_masked, hz] at hc)

theorem spells_of_written {head tail r : List Char} {c : Chain} (written : Written c head tail)
    (stands : Stands (x ++ (head ++ (tail ++ r))) ⟨x.length, (x ++ head).length⟩) :
    Spells (x ++ (head ++ (tail ++ r))) c ⟨x.length, (x ++ (head ++ tail)).length⟩ := by
  have part := Span.part_eq x (head ++ tail) r
  rw [List.append_assoc] at part
  obtain ⟨y, d, rfl, -⟩ := written.ends
  rw [List.length_append] at stands
  have filled : x.length < (x ++ (head ++ (y ++ [d]))).length := by
    simp only [List.length_append, List.length_singleton]
    omega
  exact ⟨filled, by simp, by rw [part, written.raw], head, y ++ [d], part, written, stands⟩

theorem givenUp_of_head {head base method : List Char} {v : Option (List Char)}
    (hhead : Head v base method head)
    (stands : Stands (x ++ (head ++ z)) ⟨x.length, (x ++ head).length⟩) :
    GivenUp (x ++ (head ++ z)) (String.ofList ((head ++ z).take snippetLength))
      ⟨x.length, (x ++ head).length⟩ := by
  obtain ⟨c, r, -, rfl⟩ := hhead.begins
  exact ⟨by simp, by simp, stands, ⟨v, base, method, by rwa [Span.part_eq]⟩, by rw [List.drop_left]⟩

end Spans

/-- Nothing is read behind the head that is written in the span. -/
def Unread (text : List Char) (span : Span) : Prop :=
  ∃ root, readChain? root (text.drop span.start) (text.drop span.stop) = none

/-- What is found from a position on, from left to right. -/
inductive Sweep (text : List Char) : Nat → List Found → Prop where
  | done (p : Nat) : Sweep text p []
  | chain {p : Nat} {c : Chain} {span : Span} {found : List Found} (later : p ≤ span.start)
      (spells : Spells text c span) (rest : Sweep text span.stop found) :
      Sweep text p (.chain span.start c :: found)
  | unclosed {p : Nat} {quoted : String} {span : Span} {found : List Found} (later : p ≤ span.start)
      (givenUp : GivenUp text quoted span) (unread : Unread text span)
      (rest : Sweep text span.stop found) :
      Sweep text p (.unclosed span.start quoted :: found)

section Steps

/-- What is found in a text from a position on. -/
def searchFrom (text : List Char) (p : Nat) : List Found :=
  search p (text.drop p) ((masked text).drop p)

variable {p n : Nat} {root : Root} {x head tail z r : List Char}

/-- Where both texts go on behind a root. -/
theorem drop_root (position : x.length = p + n) (rest : root.rest.length = z.length) :
    p + (((masked (x ++ (head ++ z))).drop p).length - root.rest.length) = (x ++ head).length := by
  simp only [List.length_drop, length_masked, List.length_append, rest]
  omega

theorem searchFrom_unclosed
    (found : findRoot true ((masked (x ++ (head ++ z))).drop p) = some (n, root))
    (position : x.length = p + n) (rest : root.rest.length = z.length)
    (hc : readChain? root (head ++ z) z = none) :
    searchFrom (x ++ (head ++ z)) p =
      .unclosed x.length (String.ofList ((head ++ z).take snippetLength)) ::
        searchFrom (x ++ (head ++ z)) (x ++ head).length := by
  have atHead : ((x ++ (head ++ z)).drop p).drop n = head ++ z := by
    rw [List.drop_drop, ← position, List.drop_left]
  have behind : (x ++ (head ++ z)).drop (x ++ head).length = z := by
    rw [← List.append_assoc, List.drop_left]
  have step := @search_unclosed p n ((x ++ (head ++ z)).drop p) _ root found _ rfl
    (by rw [atHead, List.drop_drop, drop_root position rest, behind, hc])
  rw [atHead, List.drop_drop, List.drop_drop, drop_root position rest, ← position] at step
  exact step

theorem searchFrom_chain {c : Chain}
    (found : findRoot true ((masked (x ++ (head ++ (tail ++ r)))).drop p) = some (n, root))
    (position : x.length = p + n) (rest : root.rest.length = (tail ++ r).length)
    (hc : readChain? root (head ++ (tail ++ r)) (tail ++ r) = some (c, r)) :
    searchFrom (x ++ (head ++ (tail ++ r))) p =
      .chain x.length c ::
        searchFrom (x ++ (head ++ (tail ++ r))) (x ++ (head ++ tail)).length := by
  have atHead : ((x ++ (head ++ (tail ++ r))).drop p).drop n = head ++ (tail ++ r) := by
    rw [List.drop_drop, ← position, List.drop_left]
  have behind : (x ++ (head ++ (tail ++ r))).drop (x ++ head).length = tail ++ r := by
    rw [← List.append_assoc, List.drop_left]
  have fits := findRoot_rest found
  have taken : p + max (((masked (x ++ (head ++ (tail ++ r)))).drop p).length - root.rest.length)
      (((x ++ (head ++ (tail ++ r))).drop p).length - r.length) = (x ++ (head ++ tail)).length := by
    simp only [List.length_drop, length_masked, List.length_append, rest] at fits ⊢
    omega
  have step := @search_chain p n ((x ++ (head ++ (tail ++ r))).drop p) _ root found c r _
    (by rw [atHead, List.drop_drop, drop_root position rest, behind, hc]) rfl
  rw [List.drop_drop, List.drop_drop, taken, ← position] at step
  exact step

end Steps

section Searching

variable {text : List Char}

/-- No word of the text goes over this position. -/
def Fresh (text : List Char) (p : Nat) : Prop :=
  ∀ c d, (text.take p).getLast? = some c → (text.drop p).head? = some d →
    isWord c = true → isWord d = false

/-- What a search comes upon next, where it goes on and what it looks at. -/
theorem root_found (clean : Uncommented .code text) {p n : Nat} (fresh : Fresh text p) {root : Root}
    (found : findRoot true ((masked text).drop p) = some (n, root)) :
    ∃ x head z, text = x ++ (head ++ z) ∧ x.length = p + n ∧
      Head root.boundTo root.base root.method head ∧ masked z = root.rest ∧
      Stands text ⟨x.length, (x ++ head).length⟩ := by
  obtain ⟨before, t, head, shown, length, begins, last, -⟩ := begins_of_findRoot found
  rw [begins.text] at shown
  have inside : p ≤ (masked text).length := by
    have filled := findRoot_rest found
    rw [List.length_drop] at filled
    omega
  have whole : masked text = (masked text).take p ++ before ++ (head ++ root.rest) := by
    rw [List.append_assoc, ← shown, List.take_append_drop]
  obtain ⟨x, z, htext, closed, hx, hz⟩ := head_of_masked begins.head whole
  have position : x.length = p + n := by
    rw [← length_masked, hx, List.length_append, List.length_take_of_le inside, length]
  refine ⟨x, head, z, htext, position, begins.head, hz, ?_⟩
  rw [htext] at clean ⊢
  refine stands_of_masked clean closed begins.head ?_ hz begins.whole
  intro c hc
  by_cases first : before = []
  · -- The word would have begun before the position.
    subst first
    obtain ⟨d, r, hd, rfl⟩ := begins.head.begins
    obtain rfl : n = 0 := length.symm
    have front : text.take p = x := by
      rw [htext, ← Nat.add_zero p, ← position, List.take_left]
    have behind : text.drop p = d :: r ++ z := by
      rw [htext, ← Nat.add_zero p, ← position, List.drop_left]
    cases hw : isWord c with
    | false => rfl
    | true =>
      have other := fresh c d (by rw [front, hc]) (by rw [behind]; rfl) hw
      rw [hd] at other
      cases other
  · refine last c ?_
    rw [← getLast?_masked closed, hx, List.getLast?_append] at hc
    obtain ⟨e, he⟩ := Option.ne_none_iff_exists'.1 (mt List.getLast?_eq_none_iff.1 first)
    rw [he] at hc ⊢
    exact hc

theorem fresh_of_last {x y : List Char} {d : Char} (hd : isWord d = false) :
    Fresh (x ++ [d] ++ y) (x ++ [d]).length := by
  intro c e hc he hw
  rw [List.take_left, List.getLast?_concat] at hc
  cases hc
  rw [hd] at hw
  cases hw

/-- A search that begins between two words goes through the text from left to right. -/
theorem sweep_search (clean : Uncommented .code text) {p : Nat} (fresh : Fresh text p) :
    Sweep text p (searchFrom text p) := by
  induction hn : (masked text).length - p using Nat.strongRecOn generalizing p with
  | ind k ih =>
    cases found : findRoot true ((masked text).drop p) with
    | none =>
      rw [searchFrom, search_none found]
      exact .done p
    | some root =>
      obtain ⟨n, root⟩ := root
      have fits := findRoot_rest found
      obtain ⟨x, head, z, rfl, position, hhead, hz, stands⟩ := root_found clean fresh found
      have rest : root.rest.length = z.length := by rw [← hz, length_masked]
      have later : p ≤ x.length := by omega
      have onwards (q : Nat) (further : (x ++ head).length ≤ q) :
          (masked (x ++ (head ++ z))).length - q < k := by
        simp only [List.length_drop, length_masked, List.length_append, rest] at hn fits further ⊢
        omega
      cases hc : readChain? root (head ++ z) z with
      | none =>
        have unread : Unread (x ++ (head ++ z)) ⟨x.length, (x ++ head).length⟩ := by
          refine ⟨root, ?_⟩
          rwa [List.drop_left, ← List.append_assoc, List.drop_left]
        rw [searchFrom_unclosed found position rest hc]
        exact .unclosed later (givenUp_of_head hhead stands) unread
          (ih _ (onwards _ (Nat.le_refl _)) (fun _ d _ hd _ => stands.behind d hd) rfl)
      | some pair =>
        obtain ⟨c, r⟩ := pair
        obtain ⟨tail, rfl, written⟩ := written_of_readChain? hhead hc
        have fresh' : Fresh (x ++ (head ++ (tail ++ r))) (x ++ (head ++ tail)).length := by
          obtain ⟨y, d, rfl, hd⟩ := written.ends
          simpa using @fresh_of_last (x ++ (head ++ y)) r d hd
        rw [searchFrom_chain found position rest hc]
        exact .chain later (spells_of_written written stands)
          (ih _ (onwards _ (by simp)) fresh' rfl)

end Searching

section Whole

variable {text : List Char}

/-- The spans of what is found from a position on: one for each chain and one for each head that is
given up, in order and apart from each other. -/
theorem Sweep.spans {p : Nat} {found : List Found} (h : Sweep text p found) :
    ∃ spans heads : List Span,
      List.Forall₂ (Spells text) (found.filterMap Found.chain?) spans ∧
      List.Forall₂ (GivenUp text) (found.filterMap Found.snippet?) heads ∧
      (∀ span ∈ spans ++ heads, p ≤ span.start) ∧
      spans.Pairwise Span.Before ∧ heads.Pairwise Span.Before ∧
      ∀ head ∈ heads, ∀ span ∈ spans, head.Before span ∨ span.Before head := by
  induction h with
  | done p => exact ⟨[], [], .nil, .nil, nofun, .nil, .nil, nofun⟩
  | @chain p c span found later spells rest ih =>
    obtain ⟨spans, heads, hspans, hheads, behind, ordered, ordered', apart⟩ := ih
    have filled := spells.filled
    have first (s : Span) (hs : s ∈ spans ++ heads) : span.Before s := behind s hs
    refine ⟨span :: spans, heads, .cons spells hspans, hheads, ?_,
      .cons (fun s hs => first s (List.mem_append_left _ hs)) ordered, ordered', ?_⟩
    · rw [List.cons_append, List.forall_mem_cons]
      exact ⟨later, fun s hs => by have := behind s hs; omega⟩
    · intro head hhead
      refine List.forall_mem_cons.2 ⟨.inr (first head (List.mem_append_right _ hhead)), ?_⟩
      exact apart head hhead
  | @unclosed p quoted span found later givenUp unread rest ih =>
    obtain ⟨spans, heads, hspans, hheads, behind, ordered, ordered', apart⟩ := ih
    have filled := givenUp.filled
    have first (s : Span) (hs : s ∈ spans ++ heads) : span.Before s := behind s hs
    refine ⟨spans, span :: heads, hspans, .cons givenUp hheads, ?_, ordered,
      .cons (fun s hs => first s (List.mem_append_right _ hs)) ordered', ?_⟩
    · intro s hs
      rcases List.mem_append.1 hs with hs | hs
      · have := behind s (List.mem_append_left _ hs)
        omega
      · rcases List.mem_cons.1 hs with rfl | hs
        · exact later
        · have := behind s (List.mem_append_right _ hs)
          omega
    · exact List.forall_mem_cons.2 ⟨fun s hs => .inl (first s (List.mem_append_left _ hs)), apart⟩

/-- What a search goes through in the normal form of a program text. -/
theorem sweep_searchSource (source : List Char) :
    Sweep (normalize source) 0 (searchSource source) := by
  have clean := uncommented_normalize source
  have whole := sweep_search clean (p := 0) fun c d hc => by cases hc
  rwa [searchFrom, ← mask_eq clean] at whole

/-- The mask of a text in its normal form is as long as the text and differs from it in literals
only. Each chain of the text is what one span of it spells, from its head on, and what is quoted of a
broken chain begins with a head; the spans of the chains and of the broken heads follow each other
without touching the same character twice, and no head is part of a literal. -/
theorem extraction_sound (source : List Char) :
    (mask (normalize source)).length = (normalize source).length ∧
    (∀ i, Outside (normalize source) i → (mask (normalize source))[i]? = (normalize source)[i]?) ∧
    ∃ spans heads : List Span,
      List.Forall₂ (Spells (normalize source)) (chains source) spans ∧
      List.Forall₂ (GivenUp (normalize source)) (brokenChains source) heads ∧
      spans.Pairwise Span.Before ∧ heads.Pairwise Span.Before ∧
      ∀ head ∈ heads, ∀ span ∈ spans, head.Before span ∨ span.Before head := by
  have clean := uncommented_normalize source
  obtain ⟨spans, heads, hspans, hheads, -, ordered, ordered', apart⟩ :=
    (sweep_searchSource source).spans
  refine ⟨?_, ?_, spans, heads, hspans, hheads, ordered, ordered', apart⟩
  · rw [mask_eq clean, length_masked]
  · intro i outside
    rw [mask_eq clean, getElem?_masked clean outside]

end Whole

end HostPlan.Source
