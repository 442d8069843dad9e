import VyperFront.Diagnostic.Hint
import VyperFront.Proofs.Text.Part
import VyperFront.Proofs.Text.Place

namespace VyperFront.Text

/-- The comment at the end of a line, with its mark. -/
def comment (line : Text) : Text := line.dropWhile (· ≠ '#')

/-- The line up to the mark of its comment. -/
def cut (line : Text) : Text := line.takeWhile (· ≠ '#') ++ line.comment.take 1

/-- The text without what is in its comments, read from inside of a comment on or not. -/
def uncommentedFrom (inside : Bool) : Text → Text
  | [] => []
  | c :: rest =>
    if c = '\n' then c :: uncommentedFrom false rest
    else if inside then uncommentedFrom true rest
    else c :: uncommentedFrom (c = '#') rest

/-- The text without what is in its comments. Only their marks are left. -/
def uncommented (t : Text) : Text := uncommentedFrom false t

variable {t u front line part : Text} {c : Char} {inside : Bool}

@[simp] theorem uncommented_nil : uncommented [] = [] := rfl

theorem uncommentedFrom_feed (inside : Bool) (t : Text) :
    uncommentedFrom inside ('\n' :: t) = '\n' :: uncommented t := rfl

theorem uncommentedFrom_true_cons (other : c ≠ '\n') (t : Text) :
    uncommentedFrom true (c :: t) = uncommentedFrom true t := by
  rw [uncommentedFrom, if_neg other, if_pos rfl]

theorem uncommented_cons (other : c ≠ '\n') (t : Text) :
    uncommented (c :: t) = c :: uncommentedFrom (c = '#') t := by
  rw [uncommented, uncommentedFrom, if_neg other, if_neg Bool.false_ne_true]

theorem uncommented_comment (t : Text) : uncommented ('#' :: t) = '#' :: uncommentedFrom true t :=
  uncommented_cons (by decide) t

theorem uncommented_append_of_not_mem (plain : '#' ∉ front) (t : Text) :
    uncommented (front ++ t) = front ++ uncommented t := by
  induction front with
  | nil => rfl
  | cons c rest ih =>
    rw [List.mem_cons, not_or] at plain
    rw [List.cons_append, List.cons_append, ← ih plain.2]
    by_cases feed : c = '\n'
    · rw [feed]
      exact uncommentedFrom_feed false _
    · rw [uncommented_cons feed, decide_eq_false (Ne.symm plain.1)]
      rfl

theorem uncommented_cons_of_ne (other : c ≠ '#') (t : Text) :
    uncommented (c :: t) = c :: uncommented t := by
  have plain : '#' ∉ [c] := by simpa using other.symm
  exact uncommented_append_of_not_mem plain t

theorem uncommented_of_not_mem (plain : '#' ∉ t) : uncommented t = t := by
  have same := uncommented_append_of_not_mem plain []
  rwa [List.append_nil, uncommented_nil, List.append_nil] at same

theorem uncommentedFrom_append_feed (inside : Bool) (front t : Text) :
    uncommentedFrom inside (front ++ '\n' :: t) =
      uncommentedFrom inside front ++ '\n' :: uncommented t := by
  induction front generalizing inside with
  | nil => rfl
  | cons c rest ih =>
    rw [List.cons_append, uncommentedFrom, uncommentedFrom, ih, ih, ih]
    split
    · rfl
    · split <;> rfl

/-- After a text that does not end in a comment, the comments are those of each part. -/
theorem uncommented_append (closed : '#' ∉ lastLine front) (t : Text) :
    uncommented (front ++ t) = uncommented front ++ uncommented t := by
  by_cases feed : '\n' ∈ front
  · obtain ⟨before, same⟩ := exists_lastLine feed
    have split (t : Text) : uncommented (before ++ '\n' :: t) =
        uncommentedFrom false before ++ '\n' :: uncommented t := uncommentedFrom_append_feed ..
    rw [same, List.append_assoc, List.cons_append, split, split,
      uncommented_append_of_not_mem closed, uncommented_of_not_mem closed, List.append_assoc,
      List.cons_append]
  · rw [lastLine_of_not_mem feed] at closed
    rw [uncommented_append_of_not_mem closed, uncommented_of_not_mem closed]

theorem lastLine_uncommented (closed : '#' ∉ lastLine t) : lastLine (uncommented t) = lastLine t := by
  by_cases feed : '\n' ∈ t
  · obtain ⟨before, same⟩ := exists_lastLine feed
    have whole : uncommented t = uncommentedFrom false before ++ '\n' :: lastLine t := by
      rw [same, uncommented, uncommentedFrom_append_feed, ← same, uncommented_of_not_mem closed]
    rw [whole, lastLine_append_feed, lastLine_of_not_mem (feed_not_mem_lastLine t)]
  · rw [lastLine_of_not_mem feed] at closed
    rw [uncommented_of_not_mem closed]

theorem count_feed_uncommentedFrom (inside : Bool) (t : Text) :
    (uncommentedFrom inside t).count '\n' = t.count '\n' := by
  induction t generalizing inside with
  | nil => rfl
  | cons c rest ih =>
    rw [uncommentedFrom]
    split
    · rw [List.count_cons, List.count_cons, ih]
    · next other =>
      rw [List.count_cons_of_ne other]
      split
      · exact ih true
      · rw [List.count_cons_of_ne other, ih]

theorem feed_mem_uncommented_iff : '\n' ∈ uncommented t ↔ '\n' ∈ t := by
  rw [← List.count_pos_iff, uncommented, count_feed_uncommentedFrom, List.count_pos_iff]

theorem uncommented_eq_nil_iff : uncommented t = [] ↔ t = [] := by
  cases t with
  | nil => exact iff_of_true rfl rfl
  | cons c rest =>
    refine iff_of_false (fun empty => ?_) (List.cons_ne_nil c rest)
    rw [uncommented, uncommentedFrom] at empty
    split at empty <;> cases empty

theorem mem_of_mem_uncommentedFrom (member : c ∈ uncommentedFrom inside t) : c ∈ t := by
  induction t generalizing inside with
  | nil => exact member
  | cons d rest ih =>
    rw [uncommentedFrom] at member
    rw [List.mem_cons]
    split at member
    · exact (List.mem_cons.mp member).imp_right ih
    · split at member
      · exact .inr (ih member)
      · exact (List.mem_cons.mp member).imp_right ih

theorem endsLine_uncommentedFrom (inside : Bool) (t : Text) :
    (uncommentedFrom inside t).endsLine = t.endsLine := by
  have other {c : Char} (other : c ≠ '\n') (t : Text) : endsLine (c :: t) = endsLine t := by
    cases t with
    | nil => simpa [endsLine] using other
    | cons d rest => simp [endsLine]
  induction t generalizing inside with
  | nil => rfl
  | cons c rest ih =>
    rw [uncommentedFrom]
    split
    · next feed =>
      subst feed
      have later := ih false
      cases rest with
      | nil => rfl
      | cons d more =>
        obtain ⟨e, left, same⟩ := List.exists_cons_of_ne_nil
          (mt uncommented_eq_nil_iff.mp (List.cons_ne_nil d more))
        rw [uncommented] at same
        rw [same] at later ⊢
        simpa [endsLine] using later
    · next feed =>
      rw [other feed]
      split
      · exact ih true
      · rw [other feed, ih]

theorem comment_of_not_mem (plain : '#' ∉ line) : comment line = [] := by
  rw [comment, List.dropWhile_eq_nil_iff]
  intro c member
  exact decide_eq_true fun same => plain (same ▸ member)

theorem comment_append (plain : '#' ∉ front) (t : Text) : comment (front ++ '#' :: t) = '#' :: t := by
  have code : ∀ c ∈ front, decide (c ≠ '#') = true := fun c member =>
    decide_eq_true fun same => plain (same ▸ member)
  rw [comment, List.dropWhile_append_of_pos code]
  rfl

theorem cut_of_not_mem (plain : '#' ∉ line) : cut line = line := by
  rw [cut, comment_of_not_mem plain, List.take_nil, List.append_nil, List.takeWhile_eq_self_iff]
  intro c member
  exact decide_eq_true fun same => plain (same ▸ member)

theorem cut_append_of_not_mem (plain : '#' ∉ front) (t : Text) : cut (front ++ t) = front ++ cut t := by
  have code : ∀ c ∈ front, decide (c ≠ '#') = true := fun c member =>
    decide_eq_true fun same => plain (same ▸ member)
  rw [cut, cut, comment, comment, List.takeWhile_append_of_pos code,
    List.dropWhile_append_of_pos code, List.append_assoc]

theorem cut_append (plain : '#' ∉ front) (t : Text) : cut (front ++ '#' :: t) = front ++ ['#'] := by
  rw [cut_append_of_not_mem plain]
  rfl

/-- A line has no comment, or it is what comes before the mark of its comment, and the comment. -/
theorem comment_cases (line : Text) :
    '#' ∉ line ∨ ∃ code rest, line = code ++ '#' :: rest ∧ '#' ∉ code := by
  by_cases marked : '#' ∈ line
  · exact .inr (List.eq_append_cons_of_mem marked)
  · exact .inl marked

/-- Without its comments a text has the same lines, but for the comments. -/
theorem lines_uncommented (t : Text) : lines (uncommented t) = (lines t).map cut := by
  -- Inside of a comment, nothing of the first line is left.
  suffices both : ∀ inside, ∃ first rest, lines t = first :: rest ∧
      lines (uncommentedFrom inside t) = (if inside then [] else cut first) :: rest.map cut by
    obtain ⟨first, rest, same, whole⟩ := both false
    rw [uncommented, whole, same]
    rfl
  induction t with
  | nil => exact fun inside => ⟨[], [], rfl, by cases inside <;> rfl⟩
  | cons c t ih =>
    intro inside
    by_cases feed : c = '\n'
    · obtain ⟨first, rest, same, whole⟩ := ih false
      refine ⟨[], first :: rest, by rw [feed, lines_feed, same], ?_⟩
      rw [feed, uncommentedFrom_feed, lines_feed, uncommented, whole]
      cases inside <;> rfl
    · obtain ⟨first, rest, same, longer⟩ := lines_cons feed t
      refine ⟨c :: first, rest, longer, ?_⟩
      cases inside with
      | true =>
        obtain ⟨_, _, also, whole⟩ := ih true
        obtain ⟨rfl, rfl⟩ := List.cons.inj (same.symm.trans also)
        rw [uncommentedFrom_true_cons feed, whole]
        rfl
      | false =>
        obtain ⟨_, _, also, whole⟩ := ih (c = '#')
        obtain ⟨rfl, rfl⟩ := List.cons.inj (same.symm.trans also)
        obtain ⟨_, _, first, longer⟩ := lines_cons feed (uncommentedFrom (c = '#') t)
        obtain ⟨rfl, rfl⟩ := List.cons.inj (first.symm.trans whole)
        rw [← uncommented, uncommented_cons feed, longer]
        by_cases mark : c = '#'
        · subst mark
          rfl
        · simp [cut, comment, mark]

theorem lines_append_feed (one : '\n' ∉ line) (t : Text) :
    lines (line ++ '\n' :: t) = line :: lines t := by
  induction line with
  | nil => exact lines_feed t
  | cons c rest ih =>
    rw [List.mem_cons, not_or] at one
    obtain ⟨_, _, same, longer⟩ := lines_cons (Ne.symm one.1) (rest ++ '\n' :: t)
    obtain ⟨rfl, rfl⟩ := List.cons.inj (same.symm.trans (ih one.2))
    exact longer

theorem lines_of_not_mem (one : '\n' ∉ t) : lines t = [t] := by
  induction t with
  | nil => rfl
  | cons c rest ih =>
    rw [List.mem_cons, not_or] at one
    obtain ⟨_, _, same, longer⟩ := lines_cons (Ne.symm one.1) rest
    obtain ⟨rfl, rfl⟩ := List.cons.inj (same.symm.trans (ih one.2))
    exact longer

theorem feed_not_mem_of_mem_lines (member : line ∈ lines t) : '\n' ∉ line := by
  induction t generalizing line with
  | nil => simp [List.mem_singleton.mp member]
  | cons c rest ih =>
    by_cases feed : c = '\n'
    · rw [feed, lines_feed] at member
      rcases List.mem_cons.mp member with rfl | later
      · exact List.not_mem_nil
      · exact ih later
    · obtain ⟨first, others, same, longer⟩ := lines_cons feed rest
      rw [longer] at member
      rcases List.mem_cons.mp member with rfl | later
      · rw [List.mem_cons, not_or]
        exact ⟨Ne.symm feed, ih (same ▸ List.mem_cons_self)⟩
      · exact ih (same ▸ List.mem_cons_of_mem _ later)

theorem infix_iff_lines (some : part ≠ []) (one : '\n' ∉ part) :
    part <:+: t ↔ ∃ line ∈ lines t, part <:+: line := by
  induction length : t.length using Nat.strong_induction_on generalizing t with
  | _ n shorter =>
    by_cases feed : '\n' ∈ t
    · obtain ⟨line, rest, rfl, inside⟩ := List.eq_append_cons_of_mem feed
      have later := shorter rest.length (by rw [← length]; simp; omega) rfl
      rw [lines_append_feed inside, infix_append_cons_iff some one, later, List.exists_mem_cons_iff]
    · rw [lines_of_not_mem feed]
      simp

theorem infix_iff_cut (some : part ≠ []) (plain : '#' ∉ part) :
    part <:+: line ↔ part <:+: cut line ∨ part <:+: comment line := by
  rcases comment_cases line with none | ⟨code, rest, rfl, front⟩
  · rw [cut_of_not_mem none, comment_of_not_mem none, List.infix_nil, or_iff_left some]
  · have mark (t : Text) : part <:+: '#' :: t ↔ part <:+: t := by
      rw [← List.nil_append ('#' :: t), infix_append_cons_iff some plain, List.infix_nil,
        or_iff_right some]
    rw [cut_append front, comment_append front, infix_append_cons_iff some plain, mark,
      infix_append_cons_iff some plain, List.infix_nil, or_iff_left some]

/-- A part that is in no comment is in the text just if it is there without the comments. -/
theorem infix_uncommented_iff (some : part ≠ []) (one : '\n' ∉ part) (plain : '#' ∉ part)
    (apart : ∀ line ∈ t.lines, ¬ part <:+: comment line) :
    part <:+: uncommented t ↔ part <:+: t := by
  rw [infix_iff_lines some one, infix_iff_lines some one, lines_uncommented]
  simp only [List.mem_map, exists_exists_and_eq_and]
  refine exists_congr fun line => and_congr_right fun member => ?_
  have parts := @infix_iff_cut line part some plain
  rw [parts, or_iff_left (apart line member)]

/-- The comments of a part are in comments of the text. -/
theorem exists_comment_of_infix (within : u <:+: t) (member : line ∈ u.lines) :
    ∃ longer ∈ t.lines, comment line <:+: comment longer := by
  rcases comment_cases line with none | ⟨code, rest, rfl, front⟩
  · obtain ⟨longer, others, same⟩ := List.exists_cons_of_ne_nil (lines_ne_nil t)
    refine ⟨longer, same ▸ List.mem_cons_self, ?_⟩
    rw [comment_of_not_mem none]
    exact List.nil_infix
  · have some : code ++ '#' :: rest ≠ [] := by simp
    have one := feed_not_mem_of_mem_lines member
    have inner := (infix_iff_lines some one).mpr ⟨_, member, List.infix_rfl⟩
    obtain ⟨longer, listed, before, after, rfl⟩ :=
      (infix_iff_lines some one).mp (inner.trans within)
    refine ⟨_, listed, ?_⟩
    rw [comment_append front]
    have split : before ++ (code ++ '#' :: rest) ++ after =
        before ++ code ++ '#' :: (rest ++ after) := by simp
    rw [split]
    rcases comment_cases (before ++ code) with none | ⟨front, more, same, none⟩
    · rw [comment_append none]
      exact (List.prefix_append ('#' :: rest) after).isInfix
    · rw [same, List.append_assoc, List.cons_append, comment_append none]
      exact ⟨'#' :: more, after, by simp⟩

private theorem dropWhile_append_cons {p : Char → Bool} (stops : p c = false) (t u : Text) :
    (t ++ c :: u).dropWhile p = t.dropWhile p ++ c :: u := by
  rw [List.dropWhile_append, List.dropWhile_cons_of_neg (Bool.eq_false_iff.mp stops)]
  split
  · next all => rw [List.isEmpty_iff.mp all, List.nil_append]
  · rfl

/-- Blanks are left out in front of a line, and after its comment. -/
theorem trim_append_comment (code rest : Text) :
    trim (code ++ '#' :: rest) = trimLeft code ++ '#' :: trimRight rest := by
  have solid : isBlank '#' = false := by decide
  rw [trim, trimLeft, dropWhile_append_cons solid, trimRight, List.reverse_append,
    List.reverse_cons, List.append_assoc, List.singleton_append, dropWhile_append_cons solid]
  simp [trimLeft, trimRight]

theorem count_flatten_lines (other : c ≠ '\n') (t : Text) :
    (lines t).flatten.count c = t.count c := by
  induction t with
  | nil => rfl
  | cons d rest ih =>
    by_cases feed : d = '\n'
    · rw [feed, lines_feed, List.flatten_cons, List.nil_append, ih,
        List.count_cons_of_ne other.symm]
    · obtain ⟨first, others, same, longer⟩ := lines_cons feed rest
      rw [same, List.flatten_cons] at ih
      rw [longer, List.flatten_cons, List.cons_append, List.count_cons, ih, List.count_cons]

/-- A character that is in no comment is as often in the text without the comments. -/
theorem count_uncommented {t : Text} (other : c ≠ '\n') (apart : ∀ line ∈ t.lines, c ∉ comment line) :
    (uncommented t).count c = t.count c := by
  rw [← count_flatten_lines other, ← count_flatten_lines other t, lines_uncommented,
    List.count_flatten, List.count_flatten, List.map_map]
  refine congrArg List.sum (List.map_congr_left fun line member => ?_)
  have absent := apart line member
  rcases comment_cases line with none | ⟨code, rest, rfl, front⟩
  · rw [Function.comp, cut_of_not_mem none]
  · rw [comment_append front, List.mem_cons, not_or] at absent
    rw [Function.comp, cut_append front, List.count_append, List.count_append,
      List.count_cons_of_ne (Ne.symm absent.1), List.count_cons_of_ne (Ne.symm absent.1),
      List.count_eq_zero_of_not_mem absent.2, List.count_nil]

end VyperFront.Text
