import ApiScript.Proofs.FilledLines

/-!
# Nothing of a line is lost

Quotes pair up along a line, so the number of quotes before a character tells whether it stands in a
quoted text, and a `#` outside these begins a comment. Scanning fails exactly if a quote before the
comment opens a text and is the last quote of the line. Otherwise the tokens are what stands before
the comment, without the blanks outside the quoted texts, and words next to each other are parted by
such blanks.
-/
namespace ApiScript.Token

def isQuoted (before : List Char) : Bool := before.count '\'' % 2 == 1

def marked (cs : List Char) : List (Char × Bool) := cs.mapIdx fun i c => (c, isQuoted (cs.take i))

def beginsComment (p : Char × Bool) : Bool := p.1 == '#' && !p.2

def HasComment (cs : List Char) : Prop := ∃ p ∈ marked cs, beginsComment p = true

instance (cs : List Char) : Decidable (HasComment cs) :=
  inferInstanceAs (Decidable (∃ p ∈ marked cs, beginsComment p = true))

def code (cs : List Char) : List (Char × Bool) := (marked cs).takeWhile fun p => !beginsComment p

def content (cs : List Char) : List Char :=
  ((code cs).filter fun p => p.2 || !Text.isBlank p.1).map Prod.fst

structure IsOutside (before : List Char) : Prop where
  isQuoted : isQuoted before = false
  not_hasComment : ¬ HasComment before

def LeavesOpen (cs : List Char) : Prop :=
  ∃ before after, cs = before ++ '\'' :: after ∧ IsOutside before ∧ '\'' ∉ after

def PartedAfter (cs : List Char) (before : List (List Char)) (v w : List Char) : Prop :=
  ∃ x gap y, cs = x ++ v ++ gap ++ w ++ y ∧ IsOutside x ∧ content x = before.flatten ∧
    gap ≠ [] ∧ ∀ c ∈ gap, Text.isBlank c = true

/-- Words that come next to each other among the tokens of a line are parted by blanks, in the place
where the tokens before them end. -/
def WordsParted (cs : List Char) (tokens : List (List Char)) : Prop :=
  ∀ before v w after, tokens = before ++ v :: w :: after → IsWord v → IsWord w →
    PartedAfter cs before v w

section Marks

variable {x : List Char}

theorem isQuoted_append (x y : List Char) : isQuoted (x ++ y) = (isQuoted x ^^ isQuoted y) := by
  simp only [isQuoted, List.count_append]
  rcases Nat.mod_two_eq_zero_or_one (x.count '\'') with hx | hx <;>
    rcases Nat.mod_two_eq_zero_or_one (y.count '\'') with hy | hy <;>
    simp [Nat.add_mod, hx, hy]

theorem isQuoted_of_not_mem (h : '\'' ∉ x) : isQuoted x = false := by
  simp [isQuoted, List.count_eq_zero_of_not_mem h]

theorem marked_append (x y : List Char) :
    marked (x ++ y) = marked x ++ (marked y).map fun p => (p.1, isQuoted x ^^ p.2) := by
  apply List.ext_getElem
  · simp [marked]
  · intro i hi hi'
    by_cases hlt : i < x.length
    · simp [marked, hlt, List.take_append_of_le_length (Nat.le_of_lt hlt)]
    · have htake : (x ++ y).take i = x ++ y.take (i - x.length) := by
        rw [List.take_append, List.take_of_length_le (Nat.le_of_not_lt hlt)]
      simp [marked, List.getElem_append, hlt, htake, isQuoted_append]

theorem marked_append_of_not_quoted (hx : isQuoted x = false) (y : List Char) :
    marked (x ++ y) = marked x ++ marked y := by
  rw [marked_append]
  simp [hx]

theorem marked_of_not_mem (h : '\'' ∉ x) : marked x = x.map fun c => (c, false) := by
  apply List.ext_getElem
  · simp [marked]
  · intro i hi hi'
    have htake : '\'' ∉ x.take i := fun hmem => h (List.mem_of_mem_take hmem)
    simp [marked, isQuoted_of_not_mem htake]

theorem not_beginsComment_of_mem (h : ¬ HasComment x) :
    ∀ p ∈ marked x, (!beginsComment p) = true := by
  intro p hp
  simpa using fun hbegins => h ⟨p, hp, hbegins⟩

theorem code_of_not_hasComment (h : ¬ HasComment x) : code x = marked x := by
  rw [code, ← List.append_nil (marked x), List.takeWhile_append_of_pos (not_beginsComment_of_mem h)]
  rfl

theorem hasComment_hash (cs : List Char) : HasComment ('#' :: cs) :=
  ⟨('#', false), by simp [marked, isQuoted], rfl⟩

theorem content_hash (cs : List Char) : content ('#' :: cs) = [] := by
  simp [content, code, marked, isQuoted, beginsComment]

end Marks

section Outside

variable {x : List Char}

theorem isOutside_nil : IsOutside [] := ⟨rfl, nofun⟩

/-- From a place outside on, a line is as it would be by itself. -/
theorem IsOutside.hasComment_append_iff (hx : IsOutside x) (y : List Char) :
    HasComment (x ++ y) ↔ HasComment y := by
  simp only [HasComment, marked_append_of_not_quoted hx.isQuoted, List.mem_append, or_and_right,
    exists_or]
  exact or_iff_right hx.not_hasComment

theorem IsOutside.append_iff (hx : IsOutside x) (y : List Char) :
    IsOutside (x ++ y) ↔ IsOutside y := by
  have hquoted : Token.isQuoted (x ++ y) = Token.isQuoted y := by
    simp [isQuoted_append, hx.isQuoted]
  have hcomment := hx.hasComment_append_iff y
  constructor
  · rintro ⟨hq, hc⟩
    exact ⟨hquoted ▸ hq, mt hcomment.2 hc⟩
  · rintro ⟨hq, hc⟩
    exact ⟨hquoted.trans hq, mt hcomment.1 hc⟩

theorem IsOutside.content_append (hx : IsOutside x) (y : List Char) :
    content (x ++ y) = content x ++ content y := by
  have hcode : code (x ++ y) = code x ++ code y := by
    rw [code_of_not_hasComment hx.not_hasComment, code, marked_append_of_not_quoted hx.isQuoted,
      List.takeWhile_append_of_pos (not_beginsComment_of_mem hx.not_hasComment), code]
  rw [content, hcode, List.filter_append, List.map_append]
  rfl

theorem IsOutside.leavesOpen_append_iff (hx : IsOutside x) (cs : List Char) :
    LeavesOpen (x ++ cs) ↔ LeavesOpen cs := by
  constructor
  · rintro ⟨before, after, hsplit, hbefore, hafter⟩
    obtain ⟨inner, rfl, rfl⟩ | ⟨inner, rfl, hrest⟩ := List.append_eq_append_iff.1 hsplit
    · exact ⟨inner, after, rfl, (hx.append_iff inner).1 hbefore, hafter⟩
    · cases inner with
      | nil => exact ⟨[], after, hrest.symm, isOutside_nil, hafter⟩
      | cons c inner =>
        obtain ⟨rfl, rfl⟩ := List.cons.inj hrest
        -- a quote that opens a text in the first part is closed there
        have hinner : '\'' ∉ inner := fun hmem => hafter (List.mem_append_left _ hmem)
        have hquoted := hx.isQuoted
        rw [isQuoted_append, hbefore.isQuoted, ← List.singleton_append, isQuoted_append,
          isQuoted_of_not_mem hinner] at hquoted
        cases hquoted
  · rintro ⟨before, after, rfl, hbefore, hafter⟩
    exact ⟨x ++ before, after, by simp, (hx.append_iff before).2 hbefore, hafter⟩

theorem not_leavesOpen_nil : ¬ LeavesOpen [] := by
  rintro ⟨before, after, hsplit, -⟩
  simp at hsplit

theorem not_leavesOpen_hash (cs : List Char) : ¬ LeavesOpen ('#' :: cs) := by
  rintro ⟨before, after, hsplit, hbefore, -⟩
  cases before with
  | nil => cases hsplit
  | cons c before =>
    obtain ⟨rfl, -⟩ := List.cons.inj hsplit
    exact hbefore.not_hasComment (hasComment_hash before)

theorem isOutside_blank {c : Char} (h : Text.isBlank c = true) :
    IsOutside [c] ∧ content [c] = [] := by
  obtain ⟨hhash, hquote⟩ := ne_of_isBlank h
  have hmem : '\'' ∉ [c] := by simpa using Ne.symm hquote
  have hcomment : ¬ HasComment [c] := by
    simp [HasComment, marked_of_not_mem hmem, beginsComment, hhash]
  refine ⟨⟨isQuoted_of_not_mem hmem, hcomment⟩, ?_⟩
  simp [content, code_of_not_hasComment hcomment, marked_of_not_mem hmem, h]

structure IsSolid (t : List Char) : Prop extends IsOutside t where
  content : content t = t

theorem isSolid_of_marked {t : List Char} (hquoted : isQuoted t = false)
    (h : ∀ p ∈ marked t, p.2 = true ∨ p.1 ≠ '#' ∧ Text.isBlank p.1 = false) : IsSolid t := by
  have hcomment : ¬ HasComment t := by
    rintro ⟨p, hp, hbegins⟩
    obtain ⟨hhash, hoff⟩ : p.1 = '#' ∧ p.2 = false := by simpa [beginsComment] using hbegins
    rcases h p hp with hon | ⟨hne, -⟩
    · rw [hoff] at hon
      cases hon
    · exact hne hhash
  have hkept : (marked t).filter (fun p => p.2 || !Text.isBlank p.1) = marked t := by
    apply List.filter_eq_self.2
    intro p hp
    rcases h p hp with hon | ⟨-, hblank⟩
    · simp [hon]
    · simp [hblank]
  refine ⟨⟨hquoted, hcomment⟩, ?_⟩
  rw [content, code_of_not_hasComment hcomment, hkept]
  apply List.ext_getElem
  · simp [marked]
  · simp [marked]

theorem isSolid_of_forall {t : List Char}
    (h : ∀ c ∈ t, c ≠ '\'' ∧ c ≠ '#' ∧ Text.isBlank c = false) : IsSolid t := by
  have hquote : '\'' ∉ t := fun hmem => (h _ hmem).1 rfl
  apply isSolid_of_marked (isQuoted_of_not_mem hquote)
  rw [marked_of_not_mem hquote]
  intro p hp
  obtain ⟨c, hc, rfl⟩ := List.mem_map.1 hp
  exact .inr (h c hc).2

theorem isSolid_of_plain {t : List Char} (h : ∀ c ∈ t, isPlain c = true) : IsSolid t := by
  apply isSolid_of_forall
  intro c hc
  obtain ⟨hhash, hquote, hblank, -⟩ := isPlain_iff.1 (h c hc)
  exact ⟨hquote, hhash, hblank⟩

theorem IsClosed.isSolid {t : List Char} (h : IsClosed t) : IsSolid t := by
  cases h with
  | @literal cs hcs =>
    have hopening : isQuoted ['\''] = true := rfl
    have hmarked : marked ('\'' :: (cs ++ ['\''])) =
        ('\'', false) :: (cs ++ ['\'']).map fun c => (c, true) := by
      rw [← List.singleton_append, marked_append, marked_append, marked_of_not_mem hcs, hopening,
        isQuoted_of_not_mem hcs]
      simp [marked, isQuoted]
    apply isSolid_of_marked
    · rw [← List.singleton_append, isQuoted_append, isQuoted_append, isQuoted_of_not_mem hcs]
      rfl
    · rw [hmarked]
      intro p hp
      rcases List.mem_cons.1 hp with rfl | hp
      · exact .inr ⟨by decide, by decide⟩
      · obtain ⟨c, -, rfl⟩ := List.mem_map.1 hp
        exact .inl rfl
  | @delimiter c hc =>
    apply isSolid_of_forall
    intro d hd
    obtain rfl := List.mem_singleton.1 hd
    obtain ⟨hhash, hquote, hblank⟩ := ne_of_mem_delimiters hc
    exact ⟨hquote, hhash, hblank⟩

end Outside

section Filling

variable {ts : List (List Char)} {rest cs : List Char}

/-- What tokens fill leads to a place outside, and they are its content. -/
theorem Fills.exists_outside (h : Fills rest ts cs) :
    ∃ x, cs = x ++ rest ∧ IsOutside x ∧ content x = ts.flatten := by
  have hsolid {t cs : List Char} {ts : List (List Char)} (ht : IsSolid t)
      (hcs : ∃ x, cs = x ++ rest ∧ IsOutside x ∧ content x = ts.flatten) :
      ∃ x, t ++ cs = x ++ rest ∧ IsOutside x ∧ content x = (t :: ts).flatten := by
    obtain ⟨x, rfl, hx, hcontent⟩ := hcs
    refine ⟨t ++ x, (List.append_assoc _ _ _).symm, (ht.append_iff x).2 hx, ?_⟩
    rw [ht.content_append, ht.content, hcontent]
    rfl
  induction h with
  | nil => exact ⟨[], rfl, isOutside_nil, rfl⟩
  | @blank c _ _ hc _ ih =>
    obtain ⟨x, rfl, hx, hcontent⟩ := ih
    obtain ⟨houtside, hempty⟩ := isOutside_blank hc
    refine ⟨[c] ++ x, rfl, (houtside.append_iff x).2 hx, ?_⟩
    rw [houtside.content_append, hempty, hcontent]
    rfl
  | closed ht _ ih => exact hsolid ht.isSolid ih
  | word ht _ _ ih => exact hsolid (isSolid_of_plain ht.plain) ih

theorem Fills.not_leavesOpen (h : Fills rest ts cs) (hrest : IsSpent rest) : ¬ LeavesOpen cs := by
  obtain ⟨x, rfl, hx, -⟩ := h.exists_outside
  rw [hx.leavesOpen_append_iff]
  cases hrest with
  | nil => exact not_leavesOpen_nil
  | comment cs => exact not_leavesOpen_hash cs

theorem Fills.leavesOpen (h : Fills rest ts cs) (hrest : IsUnclosed rest) : LeavesOpen cs := by
  obtain ⟨x, rfl, hx, -⟩ := h.exists_outside
  rw [hx.leavesOpen_append_iff]
  cases hrest with
  | @quote cs hcs => exact ⟨[], cs, rfl, isOutside_nil, hcs⟩

/-- The tokens that fill a line are its content. -/
theorem Fills.content_eq (h : Fills rest ts cs) (hrest : IsSpent rest) :
    content cs = ts.flatten := by
  obtain ⟨x, rfl, hx, hcontent⟩ := h.exists_outside
  rw [hx.content_append, hcontent]
  cases hrest with
  | nil => exact List.append_nil _
  | comment cs => rw [content_hash, List.append_nil]

/-- Only blanks stand before the first token. -/
theorem Fills.exists_blanks {t : List Char} (h : Fills rest (t :: ts) cs) :
    ∃ gap y, cs = gap ++ t ++ y ∧ ∀ c ∈ gap, Text.isBlank c = true := by
  generalize htokens : t :: ts = tokens at h
  induction h with
  | nil => cases htokens
  | @blank c _ _ hc _ ih =>
    obtain ⟨gap, y, rfl, hgap⟩ := ih htokens
    exact ⟨c :: gap, y, rfl, List.forall_mem_cons.2 ⟨hc, hgap⟩⟩
  | closed =>
    cases htokens
    exact ⟨[], _, rfl, nofun⟩
  | word =>
    cases htokens
    exact ⟨[], _, rfl, nofun⟩

theorem IsClosed.not_isWord {t : List Char} (h : IsClosed t) : ¬ IsWord t := by
  intro hword
  cases h with
  | literal => exact absurd (hword.plain '\'' List.mem_cons_self) (by decide)
  | delimiter hc => exact (isPlain_iff.1 (hword.plain _ List.mem_cons_self)).2.2.2 hc

/-- A word goes on until something else begins, so the next word comes after a blank. -/
theorem ne_nil_of_endsWord {gap w y : List Char} (h : EndsWord (gap ++ w ++ y)) (hw : IsWord w) :
    gap ≠ [] := by
  rintro rfl
  cases w with
  | nil => exact hw.ne_nil rfl
  | cons c w =>
    have hplain := hw.plain c List.mem_cons_self
    rw [h c rfl] at hplain
    cases hplain

theorem PartedAfter.append_left {x v w : List Char} {before : List (List Char)} (hx : IsOutside x)
    (hcontent : content x = ts.flatten) (h : PartedAfter cs before v w) :
    PartedAfter (x ++ cs) (ts ++ before) v w := by
  obtain ⟨y, gap, z, rfl, hy, hbefore, hgap⟩ := h
  refine ⟨x ++ y, gap, z, by simp, (hx.append_iff y).2 hy, ?_, hgap⟩
  rw [hx.content_append, hcontent, hbefore, List.flatten_append]

theorem PartedAfter.solid {t v w : List Char} {before : List (List Char)} (ht : IsSolid t)
    (h : PartedAfter cs before v w) : PartedAfter (t ++ cs) (t :: before) v w :=
  append_left ht.toIsOutside (by simp [ht.content] : content t = [t].flatten) h

theorem Fills.wordsParted (h : Fills rest ts cs) : WordsParted cs ts := by
  intro before v w after htokens hv hw
  induction h generalizing before with
  | nil => simp at htokens
  | @blank c _ _ hc _ ih =>
    obtain ⟨houtside, hempty⟩ := isOutside_blank hc
    have hcontent : content [c] = ([] : List (List Char)).flatten := hempty
    exact (ih before htokens).append_left houtside hcontent
  | closed ht _ ih =>
    cases before with
    | nil =>
      cases htokens
      exact absurd hv ht.not_isWord
    | cons t before =>
      obtain ⟨rfl, hrest⟩ := List.cons.inj htokens
      exact (ih before hrest).solid ht.isSolid
  | @word t ts cs ht hend hfills ih =>
    cases before with
    | nil =>
      cases htokens
      obtain ⟨gap, y, rfl, hgap⟩ := hfills.exists_blanks
      exact ⟨[], gap, y, by simp, isOutside_nil, rfl, ne_nil_of_endsWord hend hw, hgap⟩
    | cons t before =>
      obtain ⟨rfl, hrest⟩ := List.cons.inj htokens
      exact (ih before hrest).solid (isSolid_of_plain ht.plain)

end Filling

/-- A line is cut into tokens unless it leaves a quoted text open, and nothing but its comment and
the blanks outside the quoted texts is missing from them. -/
theorem lexing_loses_nothing (line : String) :
    (tokenize line = .error .unterminatedLiteral ↔ LeavesOpen line.toList) ∧
      (¬ LeavesOpen line.toList → ∃ tokens, tokenize line = .ok tokens ∧
        String.join tokens = String.ofList (content line.toList) ∧
        (∀ t ∈ tokens, IsLexeme t.toList) ∧
        WordsParted line.toList (tokens.map String.toList)) := by
  cases hscan : scan (.word []) line.toList with
  | error cause =>
    have houtcome := outcome_of_line line.toList
    rw [hscan] at houtcome
    cases houtcome with
    | unclosed hfills hrest =>
      have hopen := hfills.leavesOpen hrest
      refine ⟨iff_of_true ?_ hopen, fun hclosed => absurd hopen hclosed⟩
      rw [tokenize, hscan]
      rfl
  | ok ts =>
    have houtcome := outcome_of_line line.toList
    rw [hscan] at houtcome
    have htokens : tokenize line = .ok (ts.map String.ofList) := by
      rw [tokenize, hscan]
      rfl
    cases houtcome with
    | spent hfills hrest =>
      have hchars : (ts.map String.ofList).map String.toList = ts := by simp
      refine ⟨iff_of_false (by simp [htokens]) (hfills.not_leavesOpen hrest), fun _ => ?_⟩
      refine ⟨ts.map String.ofList, htokens, ?_, isLexeme_of_tokenize htokens, ?_⟩
      · apply String.toList_inj.1
        rw [String.toList_join, String.toList_ofList, hfills.content_eq hrest, List.flatMap_def,
          hchars]
      · rw [hchars]
        exact hfills.wordsParted

theorem glued_line_loses_nothing :
    ¬ LeavesOpen "x='a # b'y  z# 'c".toList ∧
      ∃ tokens, tokenize "x='a # b'y  z# 'c" = .ok tokens ∧
        tokens = ["x", "=", "'a # b'", "y", "z"] ∧
        String.join tokens = String.ofList (content "x='a # b'y  z# 'c".toList) ∧
        (∀ t ∈ tokens, IsLexeme t.toList) ∧
        WordsParted "x='a # b'y  z# 'c".toList (tokens.map String.toList) := by
  have htokens : tokenize "x='a # b'y  z# 'c" = .ok ["x", "=", "'a # b'", "y", "z"] := by rfl
  obtain ⟨hfails, hkeeps⟩ := lexing_loses_nothing "x='a # b'y  z# 'c"
  have hclosed : ¬ LeavesOpen "x='a # b'y  z# 'c".toList := by
    rw [← hfails, htokens]
    nofun
  obtain ⟨tokens, hfound, hrest⟩ := hkeeps hclosed
  refine ⟨hclosed, tokens, hfound, ?_, hrest⟩
  rw [htokens] at hfound
  exact (Except.ok.inj hfound).symm

end ApiScript.Token
