import Runbook.Proofs.Redactions

set_option autoImplicit false

/-! # Descriptions with another password

A password is taken out of a finished description, where it stands in quotes and escaped. If quoting
leaves it as it is, the marker takes its place, and the description tells no more of it than the
quote that encloses it. If quoting changes it, it is not found, and what is left of it stands in the
description beside the marker or without one. So two passwords that the rest of the description does
not hold lead to the same description, with the marker in their place, if and only if both are shown
as they are, between the same quotes. -/

namespace Runbook

namespace Text

variable {needle marker before after rest cs : List Char} {edge mark c : Char}

/-! ## Replacing a literal -/

/-- What is passed over does not matter. -/
theorem replaceFrom_drop (needle marker : List Char) (skip : Nat) (cs : List Char) :
    replaceFrom needle marker skip cs = replaceFrom needle marker 0 (cs.drop skip) := by
  induction cs generalizing skip with
  | nil => simp [replaceFrom]
  | cons c cs ih =>
    cases skip with
    | zero => rfl
    | succ skip => rw [replaceFrom, ih, List.drop_succ_cons]

/-- Where a literal begins nowhere, nothing changes. -/
theorem replaceFrom_append
    (h : ∀ tail, tail <:+ before → tail ≠ [] → ¬ needle <+: tail ++ rest) :
    replaceFrom needle marker 0 (before ++ rest) = before ++ replaceFrom needle marker 0 rest := by
  induction before with
  | nil => rfl
  | cons c cs ih =>
    have hc : needle.isPrefixOf (c :: (cs ++ rest)) = false :=
      Bool.eq_false_iff.2 fun hpre =>
        h (c :: cs) List.suffix_rfl (by simp) (List.isPrefixOf_iff_prefix.1 hpre)
    rw [List.cons_append, replaceFrom, hc]
    simp only [Bool.false_eq_true, if_false, List.cons_append, List.cons.injEq, true_and]
    exact ih fun tail htail => h tail (htail.trans (List.suffix_cons c cs))

/-- A literal itself is replaced. -/
theorem replaceFrom_self (hne : needle ≠ []) :
    replaceFrom needle marker 0 (needle ++ rest) = marker ++ replaceFrom needle marker 0 rest := by
  obtain ⟨c, cs, rfl⟩ := List.exists_cons_of_ne_nil hne
  have hpre : (c :: cs).isPrefixOf (c :: (cs ++ rest)) = true :=
    List.isPrefixOf_iff_prefix.2 (List.prefix_append (c :: cs) rest)
  rw [List.cons_append, replaceFrom, hpre, if_pos rfl, replaceFrom_drop]
  simp

/-- What has no `edge` in it ends before the first `edge`. -/
theorem isPrefix_of_append_cons (hedge : edge ∉ cs) (h : cs <+: before ++ edge :: rest) :
    cs <+: before := by
  have hbefore : before ++ [edge] <+: before ++ edge :: rest := ⟨rest, by simp⟩
  rcases Nat.lt_or_ge before.length cs.length with hlt | hle
  · have hpre : before ++ [edge] <+: cs :=
      List.prefix_of_prefix_length_le hbefore h (by simpa using Nat.succ_le_of_lt hlt)
    exact absurd (hpre.subset (by simp)) hedge
  · exact List.prefix_of_prefix_length_le h (List.prefix_append _ _) hle

/-- A literal is replaced between two characters that it does not have, if it occurs nowhere else. -/
theorem replaceFrom_between (hne : needle ≠ []) (hedge : edge ∉ needle)
    (hbefore : ¬ needle <:+: before) (hafter : ¬ needle <:+: after) :
    replaceFrom needle marker 0 (before ++ edge :: (needle ++ edge :: after))
      = before ++ edge :: (marker ++ edge :: after) := by
  have hrest : ¬ needle <:+: [] ++ edge :: after := fun h =>
    (isInfix_of_append_cons hedge h).elim (fun h => hne (List.infix_nil.1 h)) hafter
  have hstart : ∀ tail, tail <:+ before ++ [edge] → tail ≠ [] →
      ¬ needle <+: tail ++ (needle ++ edge :: after) := by
    intro tail htail htailne hpre
    rcases List.suffix_concat_iff.1 htail with rfl | ⟨front, rfl, hfront⟩
    · exact htailne rfl
    · rw [List.append_assoc, List.singleton_append] at hpre
      exact hbefore ((isPrefix_of_append_cons hedge hpre).isInfix.trans hfront.isInfix)
  rw [← List.singleton_append, ← List.append_assoc, replaceFrom_append hstart, replaceFrom_self hne,
    replaceFrom_of_not_infix]
  · simp
  · exact fun tail htail _ hpre => hrest (hpre.isInfix.trans htail.isInfix)

/-- Every occurrence that is replaced takes the same number of characters away and puts the marker
    there. A character that the literal does not have is counted as well. -/
theorem exists_replaced (marker : List Char) (hne : needle ≠ []) (hedge : edge ∉ needle)
    (skip : Nat) (cs : List Char) :
    ∃ k, (replaceFrom needle marker skip cs).length + k * needle.length
        = (cs.drop skip).length + k * marker.length ∧
      (replaceFrom needle marker skip cs).count edge
        = (cs.drop skip).count edge + k * marker.count edge := by
  induction cs generalizing skip with
  | nil => exact ⟨0, by simp [replaceFrom], by simp [replaceFrom]⟩
  | cons c cs ih =>
    cases skip with
    | succ skip =>
      rw [replaceFrom, List.drop_succ_cons]
      exact ih skip
    | zero =>
      rw [replaceFrom, List.drop_zero]
      split
      · next hpre =>
        obtain ⟨tail, htail⟩ := List.isPrefixOf_iff_prefix.1 hpre
        obtain ⟨d, ds, rfl⟩ := List.exists_cons_of_ne_nil hne
        rw [List.cons_append, List.cons.injEq] at htail
        obtain ⟨rfl, rfl⟩ := htail
        obtain ⟨k, hlength, hcount⟩ := ih ds.length
        refine ⟨k + 1, ?_, ?_⟩
        · simp only [List.length_append, List.length_cons, List.drop_left, Nat.add_mul,
            Nat.one_mul, Nat.add_sub_cancel] at hlength ⊢
          omega
        · have hcount' : (d :: (ds ++ tail)).count edge = tail.count edge := by
            rw [← List.cons_append, List.count_append, List.count_eq_zero_of_not_mem hedge,
              Nat.zero_add]
          simp only [List.drop_left] at hcount
          rw [List.length_cons, Nat.add_sub_cancel, List.count_append, hcount, hcount', Nat.add_mul,
            Nat.one_mul]
          omega
      · obtain ⟨k, hlength, hcount⟩ := ih 0
        rw [List.drop_zero] at hlength hcount
        refine ⟨k, ?_, ?_⟩
        · rw [List.length_cons, List.length_cons]
          omega
        · rw [List.count_cons, List.count_cons, hcount]
          omega

/-! ## Texts that quoting leaves as they are -/

/-- What stands between the quotes of a quoted text. -/
def escaped (cs : List Char) : List Char := cs.flatMap (escapeChar (quoteMark cs))

/-- Characters that stand between quotes as they are. All have a visible form, none is a backslash, and
    there are not both kinds of quotes among them. -/
structure IsPlain (cs : List Char) : Prop where
  visible : ∀ c ∈ cs, isVisible c = true
  backslash : '\\' ∉ cs
  quotes : ¬ ('\'' ∈ cs ∧ '"' ∈ cs)

instance (cs : List Char) : Decidable (IsPlain cs) :=
  decidable_of_iff (cs.all isVisible = true ∧ '\\' ∉ cs ∧ ¬ ('\'' ∈ cs ∧ '"' ∈ cs))
    ⟨fun h => ⟨List.all_eq_true.1 h.1, h.2.1, h.2.2⟩,
      fun h => ⟨List.all_eq_true.2 h.visible, h.backslash, h.quotes⟩⟩

theorem quotedList_eq (cs : List Char) :
    quotedList cs = quoteMark cs :: (escaped cs ++ [quoteMark cs]) := rfl

theorem quoteMark_cases (cs : List Char) : quoteMark cs = '"' ∨ quoteMark cs = '\'' := by
  unfold quoteMark
  split
  · exact .inl rfl
  · exact .inr rfl

theorem IsPlain.quoteMark_eq_iff (h : IsPlain cs) : quoteMark cs = '"' ↔ '\'' ∈ cs := by
  unfold quoteMark
  split
  · next hquote => simp [hquote.1]
  · next hquote =>
    have hno : '\'' ∉ cs := fun hmem => h.quotes ⟨hmem, by_contra fun hno => hquote ⟨hmem, hno⟩⟩
    simp [hno]

theorem IsPlain.quoteMark_not_mem (h : IsPlain cs) : quoteMark cs ∉ cs := by
  rcases quoteMark_cases cs with hmark | hmark
  · rw [hmark]
    exact fun hmem => h.quotes ⟨h.quoteMark_eq_iff.1 hmark, hmem⟩
  · rw [hmark]
    intro hmem
    rw [h.quoteMark_eq_iff.2 hmem] at hmark
    cases hmark

theorem escapeChar_of_visible (hmark : c ≠ mark) (hbackslash : c ≠ '\\') (h : isVisible c = true) :
    escapeChar mark c = [c] := by
  have htab : c ≠ '\t' := by rintro rfl; revert h; decide
  have hline : c ≠ '\n' := by rintro rfl; revert h; decide
  have hreturn : c ≠ '\r' := by rintro rfl; revert h; decide
  simp [escapeChar, hmark, hbackslash, htab, hline, hreturn, h]

/-- A character that is escaped takes more than one. -/
theorem escapeChar_cases (mark c : Char) :
    (c ≠ mark ∧ c ≠ '\\' ∧ isVisible c = true) ∨ 2 ≤ (escapeChar mark c).length := by
  unfold escapeChar numberEscape
  split_ifs with h
  all_goals simp_all

theorem IsPlain.escaped_eq (h : IsPlain cs) : escaped cs = cs := by
  have hone : ∀ c ∈ cs, escapeChar (quoteMark cs) c = [c] := fun c hc =>
    escapeChar_of_visible (fun hmark => h.quoteMark_not_mem (hmark ▸ hc))
      (fun hback => h.backslash (hback ▸ hc)) (h.visible c hc)
  rw [escaped, List.flatMap_congr hone]
  simp

theorem length_le_flatMap_escapeChar (mark : Char) (cs : List Char) :
    cs.length ≤ (cs.flatMap (escapeChar mark)).length := by
  induction cs with
  | nil => exact Nat.zero_le _
  | cons c cs ih =>
    rw [List.flatMap_cons, List.length_append, List.length_cons]
    have hc : 1 ≤ (escapeChar mark c).length := by
      rcases escapeChar_cases mark c with ⟨hmark, hback, h⟩ | h
      · rw [escapeChar_of_visible hmark hback h]
        exact Nat.le_refl 1
      · omega
    omega

/-- If escaping makes a text no longer, it escapes none of its characters. -/
theorem forall_visible_of_length_le
    (h : (cs.flatMap (escapeChar mark)).length ≤ cs.length) :
    ∀ c ∈ cs, c ≠ mark ∧ c ≠ '\\' ∧ isVisible c = true := by
  induction cs with
  | nil => simp
  | cons c cs ih =>
    rw [List.flatMap_cons, List.length_append, List.length_cons] at h
    have hrest := length_le_flatMap_escapeChar mark cs
    rcases escapeChar_cases mark c with hc | hlong
    · rw [escapeChar_of_visible hc.1 hc.2.1 hc.2.2, List.length_singleton] at h
      exact List.forall_mem_cons.2 ⟨hc, ih (by omega)⟩
    · omega

theorem isPlain_of_length_le (h : (escaped cs).length ≤ cs.length) : IsPlain cs := by
  have hall := forall_visible_of_length_le h
  refine ⟨fun c hc => (hall c hc).2.2, fun hc => (hall _ hc).2.1 rfl, fun ⟨hsingle, hdouble⟩ => ?_⟩
  rcases quoteMark_cases cs with hmark | hmark
  · exact (hall _ hdouble).1 hmark.symm
  · exact (hall _ hsingle).1 hmark.symm

theorem star_not_mem_hexDigits (width n : Nat) : '*' ∉ hexDigits width n := by
  induction width generalizing n with
  | zero => exact List.not_mem_nil
  | succ width ih =>
    have hdigit : ∀ d < 16, '*' ≠ Nat.digitChar d := by decide
    rw [hexDigits, List.mem_append, List.mem_singleton, not_or]
    exact ⟨ih _, hdigit _ (Nat.mod_lt _ (by decide))⟩

/-- Escaping puts no stars into a text. -/
theorem star_not_mem_escaped (h : '*' ∉ cs) : '*' ∉ escaped cs := by
  intro hmem
  obtain ⟨c, hc, hstar⟩ := List.mem_flatMap.1 hmem
  have hne : c ≠ '*' := fun heq => h (heq ▸ hc)
  unfold escapeChar numberEscape at hstar
  split_ifs at hstar <;> simp_all [star_not_mem_hexDigits, hne.symm]

/-- If replacing a text twice, where it is quoted and once more around that, puts one marker between
    quotes in the place of the quoted text, then the text is plain. The stars tell that there was one
    occurrence, and it is as long as what stood between the quotes. -/
theorem isPlain_of_replaced (outer inner innerEnd outerEnd : List Char) (hne : needle ≠ [])
    (hstar : '*' ∉ needle) (hmarker : '*' ∈ marker) (hmark : mark ≠ '*')
    (h : replaceFrom needle marker 0
        (outer ++ replaceFrom needle marker 0 (inner ++ quotedList needle ++ innerEnd) ++ outerEnd)
      = outer ++ inner ++ mark :: (marker ++ mark :: (innerEnd ++ outerEnd))) : IsPlain needle := by
  have hquote : quoteMark needle ≠ '*' := by
    rcases quoteMark_cases needle with h | h <;> rw [h] <;> decide
  have hescaped : (escaped needle).count '*' = 0 :=
    List.count_eq_zero_of_not_mem (star_not_mem_escaped hstar)
  have hstars : 0 < marker.count '*' := List.count_pos_iff.2 hmarker
  obtain ⟨k₁, hlength₁, hcount₁⟩ := exists_replaced marker hne hstar 0
    (inner ++ quotedList needle ++ innerEnd)
  obtain ⟨k₂, hlength₂, hcount₂⟩ := exists_replaced marker hne hstar 0
    (outer ++ replaceFrom needle marker 0 (inner ++ quotedList needle ++ innerEnd) ++ outerEnd)
  rw [h] at hlength₂ hcount₂
  simp only [quotedList_eq, List.drop_zero, List.length_append, List.length_cons, List.length_nil,
    List.count_append, List.count_cons_of_ne hmark, List.count_cons_of_ne hquote, List.count_nil,
    hescaped] at hlength₁ hlength₂ hcount₁ hcount₂
  have hone : (k₁ + k₂) * marker.count '*' = 1 * marker.count '*' := by
    rw [Nat.add_mul]
    omega
  have hk : k₁ + k₂ = 1 := Nat.eq_of_mul_eq_mul_right hstars hone
  refine isPlain_of_length_le (Nat.le_of_eq ?_)
  have hneedle : (k₁ + k₂) * needle.length = k₁ * needle.length + k₂ * needle.length :=
    Nat.add_mul _ _ _
  have hmarkers : (k₁ + k₂) * marker.length = k₁ * marker.length + k₂ * marker.length :=
    Nat.add_mul _ _ _
  rw [hk] at hneedle hmarkers
  omega

end Text

/-! ## The parts of a description -/

namespace Target

/-- The same host with another password. -/
def withPassword (t : Target) (p : String) : Target := { t with password := p }

/-- What is shown of a target before its password. -/
def front (t : Target) : String :=
  "RemoteTarget(address=" ++ Text.quoted t.address ++ ", username=" ++ Text.quoted t.username
    ++ ", password="

/-- What is shown of a target after its password. -/
def back (t : Target) : String := ", port=" ++ toString t.port ++ ")"

theorem shown_withPassword (t : Target) (p : String) :
    (t.withPassword p).shown
      = (Redaction.password p).scrub (t.front ++ Text.quoted p ++ t.back) := by
  unfold shown redaction withPassword front back
  rw [← String.append_assoc, ← String.append_assoc]

end Target

namespace Task

/-- The same task with another password for the host that it talks to. -/
def withPassword : Task → String → Task
  | ssh target commands, p => ssh (target.withPassword p) commands
  | transfer t, p => transfer { t with target := t.target.withPassword p }
  | t, _ => t

/-- What is shown before the target in the description of a task that talks to a remote host, and what
    is shown after it. -/
def aroundTarget : Task → String × String
  | ssh _ commands =>
    ("SshTask(target=", ", commands=" ++ Text.bracketed (commands.map RemoteCommand.shown) ++ ")")
  | transfer t =>
    (t.kind.shown ++ "(target=", ", remote_path=" ++ Text.quoted t.remotePath ++ ", local_path="
      ++ Text.quoted t.localPath ++ ")")
  | _ => ("", "")

/-- What the description of a task shows before the password of its target. -/
def front (t : Task) (target : Target) : String := t.aroundTarget.1 ++ target.front

/-- What the description of a task shows after the password of its target. -/
def back (t : Task) (target : Target) : String := target.back ++ t.aroundTarget.2

variable {t : Task} {target : Target} {p q : String}

theorem describe_withPassword (h : t.target? = some target) (p : String) :
    (t.withPassword p).describe = (Redaction.password p).scrub
      (t.aroundTarget.1 ++ (target.withPassword p).shown ++ t.aroundTarget.2) := by
  cases t with
  | ssh target' commands =>
    obtain rfl := Option.some.inj h
    change shownBatch (target'.withPassword p) commands = (Redaction.password p).scrub
      ("SshTask(target=" ++ (target'.withPassword p).shown
        ++ (", commands=" ++ Text.bracketed (commands.map RemoteCommand.shown) ++ ")"))
    rw [shownBatch, ← String.append_assoc, ← String.append_assoc, Target.redaction,
      Target.withPassword]
  | transfer t' =>
    obtain rfl := Option.some.inj h
    change Transfer.shown { t' with target := t'.target.withPassword p }
      = (Redaction.password p).scrub (t'.kind.shown ++ "(target="
        ++ (t'.target.withPassword p).shown ++ (", remote_path=" ++ Text.quoted t'.remotePath
          ++ ", local_path=" ++ Text.quoted t'.localPath ++ ")"))
    rw [Transfer.shown, ← String.append_assoc, ← String.append_assoc, ← String.append_assoc,
      ← String.append_assoc, Target.redaction, Target.withPassword]
  | _ => cases h

theorem hasWritableDescription_withPassword (t : Task) (p : String) :
    (t.withPassword p).hasWritableDescription = t.hasWritableDescription := by
  cases t <;> rfl

/-- A password that what is shown of a task holds nowhere else, and that cannot be mistaken for the
    marker. -/
structure Distinguishes (t : Task) (target : Target) (p : String) : Prop where
  nonempty : p ≠ ""
  star : '*' ∉ p.toList
  marker : ¬ p.toList <:+: Redaction.standardMarker.toList
  front : ¬ p.toList <:+: (t.front target).toList
  back : ¬ p.toList <:+: (t.back target).toList

theorem Distinguishes.toList_ne_nil (h : t.Distinguishes target p) : p.toList ≠ [] := fun hnil =>
  h.nonempty (String.toList_eq_nil_iff.1 hnil)

/-- The description of a task with the marker between two quotes in place of the password. -/
def redacted (t : Task) (target : Target) (mark : Char) : String :=
  t.front target ++ String.singleton mark ++ Redaction.standardMarker ++ String.singleton mark
    ++ t.back target

theorem toList_redacted (t : Task) (target : Target) (mark : Char) :
    (t.redacted target mark).toList = (t.front target).toList
      ++ mark :: (Redaction.standardMarker.toList ++ mark :: (t.back target).toList) := by
  simp only [redacted, String.toList_append, String.toList_singleton, List.append_assoc,
    List.cons_append, List.nil_append]

/-- The password is taken out of what is shown of the host first, and then out of what is shown of the
    task. -/
theorem toList_describe_withPassword (h : t.target? = some target) (hne : p ≠ "") :
    (t.withPassword p).describe.toList
      = Text.replaceFrom p.toList Redaction.standardMarker.toList 0 (t.aroundTarget.1.toList
        ++ Text.replaceFrom p.toList Redaction.standardMarker.toList 0
          (target.front.toList ++ Text.quotedList p.toList ++ target.back.toList)
        ++ t.aroundTarget.2.toList) := by
  rw [describe_withPassword h, Target.shown_withPassword, Redaction.scrub_password hne,
    Redaction.scrub_password hne, Text.replaceAll, Text.replaceAll, String.toList_ofList]
  simp only [String.toList_append, String.toList_ofList, Text.quoted]

/-- A plain password is shown between its quotes, and the marker takes its place there. -/
theorem describe_of_isPlain (h : t.target? = some target) (hp : t.Distinguishes target p)
    (hplain : Text.IsPlain p.toList) :
    (t.withPassword p).describe = t.redacted target (Text.quoteMark p.toList) := by
  have hedge : Text.quoteMark p.toList ∉ p.toList := hplain.quoteMark_not_mem
  have hfront : ¬ p.toList <:+: target.front.toList := fun hin =>
    hp.front (hin.trans (by rw [front, String.toList_append]; exact (List.suffix_append _ _).isInfix))
  have hback : ¬ p.toList <:+: target.back.toList := fun hin =>
    hp.back (hin.trans (by rw [back, String.toList_append]; exact (List.prefix_append _ _).isInfix))
  have hinner : target.front.toList ++ Text.quotedList p.toList ++ target.back.toList
      = target.front.toList ++ Text.quoteMark p.toList
        :: (p.toList ++ Text.quoteMark p.toList :: target.back.toList) := by
    rw [Text.quotedList_eq, hplain.escaped_eq]
    simp
  have houter : t.aroundTarget.1.toList ++ (target.front.toList ++ Text.quoteMark p.toList
        :: (Redaction.standardMarker.toList ++ Text.quoteMark p.toList :: target.back.toList))
        ++ t.aroundTarget.2.toList
      = (t.redacted target (Text.quoteMark p.toList)).toList := by
    rw [toList_redacted, front, back]
    simp
  have hgone : ¬ p.toList <:+: (t.redacted target (Text.quoteMark p.toList)).toList := by
    rw [toList_redacted]
    intro hin
    rcases Text.isInfix_of_append_cons hedge hin with hin | hin
    · exact hp.front hin
    · exact (Text.isInfix_of_append_cons hedge hin).elim hp.marker hp.back
  refine String.toList_injective ?_
  rw [toList_describe_withPassword h hp.nonempty, hinner,
    Text.replaceFrom_between hp.toList_ne_nil hedge hfront hback, houter]
  exact Text.replaceFrom_of_not_infix _ _ _ fun tail htail _ hpre => hgone (hpre.isInfix.trans htail.isInfix)

/-- The marker takes the place of a password if and only if the password is shown as it is. -/
theorem describe_withPassword_eq_iff (h : t.target? = some target) (hp : t.Distinguishes target p)
    {mark : Char} (hmark : mark ≠ '*') :
    (t.withPassword p).describe = t.redacted target mark ↔
      Text.IsPlain p.toList ∧ Text.quoteMark p.toList = mark := by
  refine ⟨fun heq => ?_, fun ⟨hplain, heq⟩ => heq ▸ describe_of_isPlain h hp hplain⟩
  have hplain : Text.IsPlain p.toList := by
    have hmarker : '*' ∈ Redaction.standardMarker.toList := by decide
    refine Text.isPlain_of_replaced t.aroundTarget.1.toList target.front.toList target.back.toList
      t.aroundTarget.2.toList hp.toList_ne_nil hp.star hmarker hmark ?_
    rw [← toList_describe_withPassword h hp.nonempty, heq, toList_redacted, front, back,
      String.toList_append, String.toList_append]
  refine ⟨hplain, ?_⟩
  have hsame : (t.redacted target (Text.quoteMark p.toList)).toList
      = (t.redacted target mark).toList := by
    rw [← heq, describe_of_isPlain h hp hplain]
  rw [toList_redacted, toList_redacted, List.append_cancel_left_eq, List.cons.injEq] at hsame
  exact hsame.1

/-- With either of two passwords that what is shown of a task holds nowhere else, its description is the
    same text, which has the marker in the place of the password, if and only if the task has a
    description, both passwords are shown as they are, and both are put between the same quotes. -/
theorem describe_same_iff (h : t.target? = some target) (hp : t.Distinguishes target p)
    (hq : t.Distinguishes target q) :
    (∃ mark, (mark = '\'' ∨ mark = '"') ∧
      (t.withPassword p).describe? = .ok (t.redacted target mark) ∧
      (t.withPassword q).describe? = .ok (t.redacted target mark)) ↔
    t.hasWritableDescription ∧ Text.IsPlain p.toList ∧ Text.IsPlain q.toList ∧
      ('\'' ∈ p.toList ↔ '\'' ∈ q.toList) := by
  have hdescribe : ∀ p text, (t.withPassword p).describe? = .ok text ↔
      t.hasWritableDescription ∧ (t.withPassword p).describe = text := by
    intro p text
    rw [describe?, hasWritableDescription_withPassword]
    cases t.hasWritableDescription <;> simp
  simp only [hdescribe]
  constructor
  · rintro ⟨mark, hmark, ⟨hwritable, hp'⟩, -, hq'⟩
    have hstar : mark ≠ '*' := by rcases hmark with rfl | rfl <;> decide
    obtain ⟨hplain, hpmark⟩ := (describe_withPassword_eq_iff h hp hstar).1 hp'
    obtain ⟨hqplain, hqmark⟩ := (describe_withPassword_eq_iff h hq hstar).1 hq'
    refine ⟨hwritable, hplain, hqplain, ?_⟩
    rw [← hplain.quoteMark_eq_iff, ← hqplain.quoteMark_eq_iff, hpmark, hqmark]
  · rintro ⟨hwritable, hplain, hqplain, hsame⟩
    have hmark : Text.quoteMark q.toList = Text.quoteMark p.toList := by
      rw [← hplain.quoteMark_eq_iff, ← hqplain.quoteMark_eq_iff] at hsame
      rcases Text.quoteMark_cases p.toList with hp' | hp' <;>
        rcases Text.quoteMark_cases q.toList with hq' | hq' <;> simp_all
    refine ⟨Text.quoteMark p.toList, (Text.quoteMark_cases p.toList).symm,
      ⟨hwritable, describe_of_isPlain h hp hplain⟩, hwritable, ?_⟩
    rw [← hmark]
    exact describe_of_isPlain h hq hqplain

/-- An upload to a host. -/
def sampleUpload : Transfer := ⟨.sftpUpload, ⟨"host", "user", "", 22⟩, "/r", "t"⟩

theorem describe_same_sample :
    ∃ mark, (mark = '\'' ∨ mark = '"') ∧
      ((transfer sampleUpload).withPassword "it's").describe?
        = .ok ((transfer sampleUpload).redacted sampleUpload.target mark) ∧
      ((transfer sampleUpload).withPassword "don't").describe?
        = .ok ((transfer sampleUpload).redacted sampleUpload.target mark) := by
  refine (describe_same_iff rfl ?_ ?_).2
    ⟨by decide +kernel, by decide +kernel, by decide +kernel, by decide⟩
  · exact ⟨by decide, by decide, by decide, by decide +kernel, by decide +kernel⟩
  · exact ⟨by decide, by decide, by decide, by decide +kernel, by decide +kernel⟩

/-- A backslash is doubled in the description, so the password is not found there. -/
theorem describe_with_backslash :
    (transfer sampleUpload).Distinguishes sampleUpload.target "pass\\word" ∧
    (transfer sampleUpload).Distinguishes sampleUpload.target "secret" ∧
    (∀ p ∈ ["pass\\word", "secret"],
      ¬ Text.escaped p.toList <:+: ((transfer sampleUpload).front sampleUpload.target).toList ∧
      ¬ Text.escaped p.toList <:+: ((transfer sampleUpload).back sampleUpload.target).toList) ∧
    ((transfer sampleUpload).withPassword "pass\\word").describe?
      = .ok ("SftpUpload(target=RemoteTarget(address='host', username='user', "
        ++ "password='pass\\\\word', port=22), remote_path='/r', local_path='t')") ∧
    ((transfer sampleUpload).withPassword "secret").describe?
      = .ok ("SftpUpload(target=RemoteTarget(address='host', username='user', "
        ++ "password='***Not displayed for security reasons***', port=22), remote_path='/r', "
        ++ "local_path='t')") := by
  have hsecret : (transfer sampleUpload).Distinguishes sampleUpload.target "secret" :=
    ⟨by decide, by decide, by decide, by decide +kernel, by decide +kernel⟩
  refine ⟨⟨by decide, by decide, by decide, by decide +kernel, by decide +kernel⟩, hsecret,
    by decide +kernel, by decide +kernel, ?_⟩
  rw [describe?, if_pos (by decide +kernel), describe_of_isPlain rfl hsecret (by decide +kernel)]
  exact congrArg Except.ok (by decide +kernel)

end Task
end Runbook
