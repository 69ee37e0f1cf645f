/-!
# Blank characters

The characters with the Unicode property `White_Space`, of which there are
twenty-five, and the words of a text, which are what stands between them.

* `wordsOf_append`, `wordsOf_of_forall`: the words of a text are those in front
  of a blank and those behind it, and without blanks there is only one.
-/

namespace JvmMethod

/-- Has the character the property `White_Space`? -/
def isBlank (c : Char) : Bool :=
  let code := c.toNat
  (0x0009 ≤ code && code ≤ 0x000d) || code == 0x0020 || code == 0x0085
    || code == 0x00a0 || code == 0x1680
    || (0x2000 ≤ code && code ≤ 0x200a)
    || code == 0x2028 || code == 0x2029 || code == 0x202f || code == 0x205f
    || code == 0x3000

/-- The words with one more in front, unless that is empty. -/
def addWord (word : List Char) (words : List String) : List String :=
  if word.isEmpty then words else String.ofList word.reverse :: words

/-- The words of a text, after a word that has begun (backwards) and the words
in front of it (backwards). -/
def wordsFrom (begun : List Char) (words : List String) :
    List Char → List String
  | [] => (addWord begun words).reverse
  | c :: rest =>
      if isBlank c then wordsFrom [] (addWord begun words) rest
      else wordsFrom (c :: begun) words rest

/-- The words of a text. -/
def wordsOf (text : List Char) : List String :=
  wordsFrom [] [] text

theorem wordsFrom_eq (text begun : List Char) (words : List String) :
    wordsFrom begun words text =
      words.reverse ++ wordsFrom begun [] text := by
  induction text generalizing begun words with
  | nil =>
    simp only [wordsFrom, addWord]
    split <;> simp
  | cons c rest ih =>
    simp only [wordsFrom]
    split
    · rw [ih [] (addWord begun words), ih [] (addWord begun [])]
      simp only [addWord]
      split <;> simp
    · exact ih (c :: begun) words

/-- A text is cut at a blank: its words are those before and those behind. -/
theorem wordsOf_append {blank : Char} (h : isBlank blank)
    (before behind : List Char) :
    wordsOf (before ++ blank :: behind) = wordsOf before ++ wordsOf behind := by
  have go (begun : List Char) :
      wordsFrom begun [] (before ++ blank :: behind) =
        wordsFrom begun [] before ++ wordsOf behind := by
    induction before generalizing begun with
    | nil =>
      simp only [List.nil_append, wordsFrom, h, if_true]
      exact wordsFrom_eq behind [] (addWord begun [])
    | cons c rest ih =>
      simp only [List.cons_append, wordsFrom]
      split
      · rw [wordsFrom_eq _ [] (addWord begun []), ih [],
          wordsFrom_eq rest [] (addWord begun []), List.append_assoc]
      · exact ih (c :: begun)
  exact go []

/-- A text without blanks is a word, unless it is empty. -/
theorem wordsOf_of_forall {text : List Char}
    (h : ∀ c ∈ text, isBlank c = false) (nonempty : text ≠ []) :
    wordsOf text = [String.ofList text] := by
  have go (begun : List Char) (started : begun ++ text ≠ []) :
      wordsFrom begun [] text = [String.ofList (begun.reverse ++ text)] := by
    clear nonempty
    induction text generalizing begun with
    | nil =>
      rw [List.append_nil] at started
      simp [wordsFrom, addWord, started]
    | cons c rest ih =>
      simp only [wordsFrom, h c List.mem_cons_self, Bool.false_eq_true, if_false]
      rw [ih (fun c hc => h c (List.mem_cons_of_mem _ hc)) (c :: begun) (by simp)]
      simp
  exact go [] nonempty

end JvmMethod
