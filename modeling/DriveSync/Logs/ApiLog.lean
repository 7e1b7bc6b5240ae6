import DriveSync.Logs.Repair

/-!
# DriveSync.Logs.ApiLog

What is written of a manager's error output to the service's own log: one line, made safe. The
secret is taken out of the bytes first, and escape sequences and characters the log cannot hold are
dealt with after that. So what comes through as it stands in the line is never the secret, but what
is put together after may be. There are three ways to do that, and each shows in the line
(`mayWeave_of_spelled`).
-/

namespace DriveSync
namespace Logs

/-! ## One line -/

def maxLine : Nat := 160

def escape : UInt8 := 27

def bracket : UInt8 := 91

def quote : UInt8 := 34

def backslash : UInt8 := 92

def redactedLabel : Bytes := [91, 114, 101, 100, 97, 99, 116, 101, 100, 93]

/-- The secret is taken out wherever it stands, from the left. -/
def redactSecret (secret line : Bytes) : Bytes :=
  match line with
  | [] => []
  | byte :: rest =>
    if secret ≠ [] ∧ secret.isPrefixOf (byte :: rest) then
      redactedLabel ++ redactSecret secret ((byte :: rest).drop secret.length)
    else byte :: redactSecret secret rest
termination_by line.length
decreasing_by
  · rename_i h
    have := List.length_pos_iff.mpr h.1
    simp only [List.length_drop, List.length_cons]
    omega
  · simp

/-- What ends an escape sequence. -/
def finalByte (byte : UInt8) : Bool := 64 ≤ byte && byte ≤ 126

/-- What stands behind an escape sequence. -/
def dropSequence (bytes : Bytes) : Bytes := (bytes.dropWhile fun byte => !finalByte byte).drop 1

def charOf (byte : UInt8) : Char := Char.ofNat byte.toNat

def shownByte (byte : UInt8) : Char :=
  if byte = quote then '\''
  else if byte = backslash then '/'
  else if 32 ≤ byte ∧ byte ≤ 126 then charOf byte
  else '?'

theorem length_dropSequence (bytes : Bytes) : (dropSequence bytes).length ≤ bytes.length := by
  unfold dropSequence
  rw [List.length_drop]
  have hle : (bytes.dropWhile fun byte => !finalByte byte).length ≤ bytes.length :=
    (List.dropWhile_suffix _).length_le
  omega

/-- The characters of a line are shown one by one, until there is no room for more. -/
def showLoop (bytes : Bytes) (shown : List Char) : List Char :=
  match bytes with
  | [] => shown
  | byte :: rest =>
    if byte = escape then
      if rest.head? = some bracket then showLoop (dropSequence (rest.drop 1)) shown
      else showLoop rest shown
    else if shown.length = maxLine then shown
    else showLoop rest (shown ++ [shownByte byte])
termination_by bytes.length
decreasing_by
  · have := length_dropSequence (rest.drop 1)
    simp only [List.length_drop, List.length_cons] at this ⊢
    omega
  · simp
  · simp

/-- A text without the blanks at its ends. -/
def trim (text : List Char) : List Char :=
  ((text.dropWhile Char.isWhitespace).reverse.dropWhile Char.isWhitespace).reverse

def apiLogSafeLine (line : Bytes) (secret : Option Bytes) : List Char :=
  trim (showLoop (redactSecret (secret.getD []) line) [])

/-! ## An output -/

def asciiWhitespace (byte : UInt8) : Bool :=
  byte = 32 || byte = 9 || byte = 10 || byte = 12 || byte = 13

/-- The last line of an output that is whole and not blank; only the end of the output is kept. -/
def lastLine (kept : Bytes) (total : Nat) : Option Bytes :=
  let complete :=
    if kept.length < total then
      match kept.idxOf? newline with
      | some start => kept.drop (start + 1)
      | none => []
    else kept
  (complete.splitOn newline).reverse.find? fun line => line.any fun byte => !asciiWhitespace byte

structure StderrSummary where
  bytes : Nat
  truncated : Bool
  line : List Char
deriving DecidableEq, Repr

def queuedStderrSummary (kept : Bytes) (total : Nat) (secret : Option Bytes) :
    Option StderrSummary :=
  let truncated := decide (kept.length < total)
  match lastLine kept total with
  | some line => some ⟨total, truncated, apiLogSafeLine line secret⟩
  | none =>
    if total = 0 then none
    -- output nobody could read as a line still happened, and is still counted
    else if kept.all asciiWhitespace && !truncated then none
    else some ⟨total, truncated, apiLogSafeLine [] secret⟩

/-! ## How a line may spell the secret -/

/-- The bytes are shown as the secret is spelled. -/
def Spells (bytes secret : Bytes) : Prop := bytes.map shownByte = secret.map charOf

instance (bytes secret : Bytes) : Decidable (Spells bytes secret) :=
  inferInstanceAs (Decidable (_ = _))

/-- A stretch of the line is shown as the secret, and is not the secret. -/
def Imitates (secret line : Bytes) : Prop :=
  ∃ start < line.length, Spells ((line.drop start).take secret.length) secret ∧
    (line.drop start).take secret.length ≠ secret

/-- An escape stands behind what is shown as a beginning of the secret, and the characters of the
rest of it come after, in their order. -/
def Splits (secret bytes : Bytes) : Prop :=
  ∃ position < bytes.length, bytes[position]? = some escape ∧ ∃ count < secret.length, 0 < count ∧
    (secret.take count).map charOf <:+ (bytes.take position).map shownByte ∧
    ((secret.drop count).map charOf).Sublist ((bytes.drop (position + 1)).map shownByte)

/-- Two texts of which one lies in the other, or of which one starts where the other ends. -/
def Overlap (a b : Bytes) : Prop :=
  a <:+: b ∨ b <:+: a ∨ ∃ count < a.length, count ≠ 0 ∧
    ((a.take count) <:+ b ∨ (a.drop count) <+: b)

/-- The secret stands in the line, and the label put in its place goes into it. -/
def Labels (secret line : Bytes) : Prop :=
  secret <:+: line ∧ Overlap secret redactedLabel

/-- The secret may be put together from what is left of the line. -/
def MayWeave (secret line : Bytes) : Prop :=
  Imitates secret line ∨ Splits secret line ∨ Labels secret line

instance (secret line : Bytes) : Decidable (MayWeave secret line) := by
  unfold MayWeave Imitates Splits Labels Overlap
  infer_instance

variable {secret line : Bytes}

/-! ## What is shown -/

/-- The characters of a line that no escape sequence takes away. -/
def visible (bytes : Bytes) : List Char :=
  match bytes with
  | [] => []
  | byte :: rest =>
    if byte = escape then
      if rest.head? = some bracket then visible (dropSequence (rest.drop 1))
      else visible rest
    else shownByte byte :: visible rest
termination_by bytes.length
decreasing_by
  · have := length_dropSequence (rest.drop 1)
    simp only [List.length_drop, List.length_cons] at this ⊢
    omega
  · simp
  · simp

theorem showLoop_eq (bytes : Bytes) {shown : List Char} (h : shown.length ≤ maxLine) :
    showLoop bytes shown = shown ++ (visible bytes).take (maxLine - shown.length) := by
  fun_induction visible bytes generalizing shown with
  | case1 => simp [showLoop]
  | case2 rest hbracket ih => rw [showLoop, if_pos rfl, if_pos hbracket, ih h]
  | case3 rest hbracket ih => rw [showLoop, if_pos rfl, if_neg hbracket, ih h]
  | case4 byte rest hescape ih =>
    rw [showLoop, if_neg hescape]
    split
    · rename_i hfull
      rw [hfull, Nat.sub_self, List.take_zero, List.append_nil]
    · rename_i hroom
      have hlength : (shown ++ [shownByte byte]).length = shown.length + 1 := by simp
      rw [ih (by omega), hlength,
        show maxLine - shown.length = maxLine - (shown.length + 1) + 1 by omega, List.take_succ_cons,
        List.append_assoc]
      rfl

theorem isInfix_trim (text : List Char) : trim text <:+: text := by
  unfold trim
  have hback : ((text.dropWhile Char.isWhitespace).reverse.dropWhile Char.isWhitespace).reverse <+:
      text.dropWhile Char.isWhitespace :=
    List.reverse_suffix.mp (by rw [List.reverse_reverse]; exact List.dropWhile_suffix _)
  exact hback.isInfix.trans (List.dropWhile_suffix _).isInfix

theorem apiLogSafeLine_infix :
    apiLogSafeLine line (some secret) <:+: visible (redactSecret secret line) := by
  unfold apiLogSafeLine
  rw [Option.getD_some, showLoop_eq _ (Nat.zero_le _), List.nil_append]
  exact (isInfix_trim _).trans (List.take_prefix _ _).isInfix

/-- An escape takes away itself, or the sequence it starts. -/
theorem visible_escape (rest : Bytes) :
    ∃ kept, kept <:+ rest ∧ visible (escape :: rest) = visible kept := by
  rw [visible, if_pos rfl]
  split
  · have hdropped : dropSequence (rest.drop 1) <:+ rest :=
      ((List.drop_suffix 1 _).trans (List.dropWhile_suffix _)).trans (List.drop_suffix 1 _)
    exact ⟨_, hdropped, rfl⟩
  · exact ⟨rest, List.suffix_refl _, rfl⟩

theorem visible_cons {byte : UInt8} (h : byte ≠ escape) (rest : Bytes) :
    visible (byte :: rest) = shownByte byte :: visible rest := by
  rw [visible, if_neg h]

theorem visible_sublist (bytes : Bytes) : (visible bytes).Sublist (bytes.map shownByte) := by
  induction hn : bytes.length using Nat.strong_induction_on generalizing bytes with
  | _ n ih =>
    cases bytes with
    | nil =>
      rw [visible]
      exact .refl _
    | cons byte rest =>
      rw [List.length_cons] at hn
      by_cases hbyte : byte = escape
      · subst hbyte
        obtain ⟨kept, hkept, hshown⟩ := visible_escape rest
        have hlength := hkept.length_le
        rw [hshown]
        exact ((ih kept.length (by omega) kept rfl).trans (hkept.sublist.map shownByte)).cons _
      · rw [visible_cons hbyte]
        exact (ih rest.length (by omega) rest rfl).cons_cons _

/-- Where a character is shown, a byte is shown, and what comes after comes from behind it. -/
theorem visible_split {bytes : Bytes} {before rest : List Char} {c : Char}
    (h : visible bytes = before ++ c :: rest) : ∃ front byte back,
      bytes = front ++ byte :: back ∧ byte ≠ escape ∧ shownByte byte = c ∧ visible back = rest := by
  induction hn : bytes.length using Nat.strong_induction_on generalizing bytes before with
  | _ n ih =>
    cases bytes with
    | nil =>
      rw [visible] at h
      cases before <;> cases h
    | cons byte bytes =>
      rw [List.length_cons] at hn
      by_cases hbyte : byte = escape
      · subst hbyte
        obtain ⟨kept, hkept, hshown⟩ := visible_escape bytes
        have hlength := hkept.length_le
        obtain ⟨front, found, back, hsplit, hfound⟩ :=
          ih kept.length (by omega) (hshown.symm.trans h) rfl
        obtain ⟨dropped, rfl⟩ := hkept
        exact ⟨escape :: (dropped ++ front), found, back, by rw [hsplit]; simp, hfound⟩
      · rw [visible_cons hbyte] at h
        cases before with
        | nil =>
          obtain ⟨hshown, hrest⟩ := List.cons.inj h
          exact ⟨[], byte, bytes, rfl, hbyte, hshown, hrest⟩
        | cons first before =>
          obtain ⟨front, found, back, hsplit, hfound⟩ :=
            ih bytes.length (by omega) (List.cons.inj h).2 rfl
          exact ⟨byte :: front, found, back, by rw [hsplit, List.cons_append], hfound⟩

theorem visible_append {front back : Bytes} (h : escape ∉ front) :
    visible (front ++ back) = front.map shownByte ++ visible back := by
  induction front with
  | nil => rfl
  | cons byte front ih =>
    obtain ⟨hbyte, hfront⟩ := not_or.mp (fun hmem => h (List.mem_cons.mpr (hmem.imp_left Eq.symm)))
    rw [List.cons_append, visible_cons hbyte, ih hfront]
    rfl

/-! ## What is left of the secret -/

theorem redactSecret_of_absent (h : ¬ secret <:+: line) : redactSecret secret line = line := by
  fun_induction redactSecret secret line with
  | case1 => rfl
  | case2 byte rest hstarts ih =>
    exact absurd (List.isPrefixOf_iff_prefix.mp hstarts.2).isInfix h
  | case3 byte rest hnot ih => rw [ih fun hrest => h (hrest.trans (List.suffix_cons _ _).isInfix)]

/-- A part of the redacted line is what is left of a part of the line, or of a label and of the part
of the line behind it. -/
theorem redactSecret_split {front back : Bytes} (h : redactSecret secret line = front ++ back) :
    ∃ done rest, line = done ++ rest ∧ (back = redactSecret secret rest ∨
      secret <:+: line ∧ ∃ label, label <:+ redactedLabel ∧ label ≠ [] ∧
        back = label ++ redactSecret secret rest) := by
  fun_induction redactSecret secret line generalizing front with
  | case1 =>
    obtain ⟨rfl, rfl⟩ := List.append_eq_nil_iff.mp h.symm
    exact ⟨[], [], rfl, .inl (by rw [redactSecret])⟩
  | case2 byte rest hstarts ih =>
    have hline : byte :: rest = secret ++ (byte :: rest).drop secret.length :=
      (List.prefix_iff_eq_append.mp (List.isPrefixOf_iff_prefix.mp hstarts.2)).symm
    have hheld : secret <:+: byte :: rest :=
      (List.isPrefixOf_iff_prefix.mp hstarts.2).isInfix
    rcases List.append_eq_append_iff.mp h with ⟨before, rfl, hback⟩ | ⟨label, hlabel, rfl⟩
    · obtain ⟨done, rest', hrest, hcase⟩ := ih hback
      refine ⟨secret ++ done, rest', by rw [List.append_assoc, ← hrest]; exact hline, ?_⟩
      refine hcase.imp_right fun hlabel => ⟨hheld, hlabel.2⟩
    · cases label with
      | nil => exact ⟨secret, _, hline, .inl rfl⟩
      | cons first label =>
        exact ⟨secret, _, hline, .inr ⟨hheld, first :: label, ⟨front, hlabel.symm⟩, by simp, rfl⟩⟩
  | case3 byte rest hnot ih =>
    cases front with
    | nil =>
      refine ⟨[], byte :: rest, rfl, .inl ?_⟩
      rw [redactSecret, if_neg hnot]
      exact h.symm
    | cons first front =>
      obtain ⟨rfl, hrest⟩ := List.cons.inj h
      obtain ⟨done, rest', rfl, hcase⟩ := ih hrest
      refine ⟨byte :: done, rest', rfl, hcase.imp_right fun hlabel => ⟨?_, hlabel.2⟩⟩
      exact hlabel.1.trans (List.suffix_cons _ _).isInfix

theorem charOf_inj {a b : UInt8} (h : charOf a = charOf b) : a = b := by
  have hback : ∀ n < 256, (Char.ofNat n).toNat = n := by decide +kernel
  have hchar := congrArg Char.toNat h
  unfold charOf at hchar
  rw [hback _ (UInt8.toNat_lt a), hback _ (UInt8.toNat_lt b)] at hchar
  exact UInt8.toNat_inj.mp hchar

/-- What is shown of any byte is shown of the byte it spells as well. -/
theorem shownByte_self {byte shown : UInt8} (h : shownByte byte = charOf shown) :
    shownByte shown = charOf shown := by
  have hchars : charOf 39 = '\'' ∧ charOf 47 = '/' ∧ charOf 63 = '?' := by decide +kernel
  have hself : shownByte 39 = charOf 39 ∧ shownByte 47 = charOf 47 ∧ shownByte 63 = charOf 63 := by
    decide +kernel
  by_cases hquote : byte = quote
  · rw [shownByte, if_pos hquote] at h
    obtain rfl := charOf_inj (hchars.1.trans h)
    exact hself.1
  · by_cases hbackslash : byte = backslash
    · rw [shownByte, if_neg hquote, if_pos hbackslash] at h
      obtain rfl := charOf_inj (hchars.2.1.trans h)
      exact hself.2.1
    · by_cases hprintable : 32 ≤ byte ∧ byte ≤ 126
      · have hsame := h
        rw [shownByte, if_neg hquote, if_neg hbackslash, if_pos hprintable] at hsame
        rwa [charOf_inj hsame] at h
      · rw [shownByte, if_neg hquote, if_neg hbackslash, if_neg hprintable] at h
        obtain rfl := charOf_inj (hchars.2.2.trans h)
        exact hself.2.2

theorem prefix_of_map {a b : Bytes} (h : a.map charOf <+: b.map charOf) : a <+: b := by
  rw [List.prefix_iff_eq_take, ← List.map_take] at h
  rw [List.prefix_iff_eq_take]
  have hlength : (a.map charOf).length = a.length := List.length_map _
  rw [hlength] at h
  exact List.map_injective_iff.mpr (fun _ _ => charOf_inj) h

/-- A label is shown as it stands, whatever an escape has taken away of its front. -/
theorem visible_label {label : Bytes} (h : label <:+ redactedLabel) (rest : Bytes) :
    visible (label ++ rest) = label.map charOf ++ visible rest := by
  have hshown : ∀ byte ∈ redactedLabel, byte ≠ escape ∧ shownByte byte = charOf byte := by
    decide +kernel
  rw [visible_append fun hmem => (hshown _ (h.subset hmem)).1 rfl]
  congr 1
  exact List.map_congr_left fun byte hbyte => (hshown byte (h.subset hbyte)).2

theorem prefix_of_spelled {label text : Bytes} {rest after : List Char}
    (h : label.map charOf ++ rest = text.map charOf ++ after) : text <+: label ∨ label <+: text :=
  have htext : text.map charOf <+: label.map charOf ++ rest := ⟨after, h.symm⟩
  (List.prefix_or_prefix_of_prefix htext (List.prefix_append _ _)).imp prefix_of_map prefix_of_map

/-! ## What is spelled -/

/-- How what is shown of a line from its start on begins with a text: it stands there so, or an
escape is in it, or the label. -/
inductive Begins (secret line text : Bytes) : Prop where
  | plain (hspells : Spells (line.take text.length) text) (hnot : ¬ secret <+: line)
  | split (front back first last : Bytes) (hline : line = front ++ escape :: back)
    (htext : text = first ++ last) (hlast : last ≠ []) (hspells : Spells front first)
    (hnot : ¬ secret <+: line)
    (hrest : (last.map charOf).Sublist (back.map shownByte) ∨ secret <:+: back)
  | labelled (first last : Bytes) (hstands : secret <:+: line) (htext : text = first ++ last)
    (hlast : last ≠ []) (hlabel : last <+: redactedLabel ∨ redactedLabel <+: last)

theorem begins {text : Bytes} {rest : List Char} (hsecret : secret ≠ []) (htext : text ≠ [])
    (h : visible (redactSecret secret line) = text.map charOf ++ rest) :
    Begins secret line text := by
  fun_induction redactSecret secret line generalizing text with
  | case1 =>
    rw [visible] at h
    exact absurd (List.map_eq_nil_iff.mp (List.append_eq_nil_iff.mp h.symm).1) htext
  | case2 byte line hstarts ih =>
    have hstands : secret <:+: byte :: line := (List.isPrefixOf_iff_prefix.mp hstarts.2).isInfix
    rw [visible_label (List.suffix_refl _)] at h
    exact .labelled [] text hstands rfl htext (prefix_of_spelled h)
  | case3 byte line hstarts ih =>
    have hnot : ¬ secret <+: byte :: line := fun hshown =>
      hstarts ⟨hsecret, List.isPrefixOf_iff_prefix.mpr hshown⟩
    by_cases hbyte : byte = escape
    · subst hbyte
      refine .split [] line [] text rfl rfl htext rfl hnot ?_
      by_cases hstands : secret <:+: line
      · exact .inr hstands
      · rw [redactSecret_of_absent hstands] at h
        obtain ⟨kept, hkept, hvisible⟩ := visible_escape line
        have hshown : (text.map charOf).Sublist (visible kept) := by
          rw [← hvisible, h]
          exact (List.prefix_append _ _).sublist
        exact .inl (hshown.trans ((visible_sublist kept).trans (hkept.sublist.map shownByte)))
    · rw [visible_cons hbyte] at h
      cases text with
      | nil => exact absurd rfl htext
      | cons first text =>
        obtain ⟨hfirst, h⟩ := List.cons.inj h
        by_cases hmore : text = []
        · subst hmore
          exact .plain (congrArg (· :: []) hfirst) hnot
        · cases ih hmore h with
          | plain hspells _ =>
            refine .plain ?_ hnot
            unfold Spells at hspells ⊢
            rw [List.length_cons, List.take_succ_cons, List.map_cons, List.map_cons, hspells, hfirst]
          | split front back first' last hline htext' hlast hspells _ hrest =>
            refine .split (byte :: front) back (first :: first') last (by rw [hline]; rfl)
              (by rw [htext']; rfl) hlast ?_ hnot hrest
            unfold Spells at hspells ⊢
            rw [List.map_cons, List.map_cons, hspells, hfirst]
          | labelled first' last hstands htext' hlast hlabel =>
            exact .labelled (first :: first') last (hstands.trans (List.suffix_cons _ _).isInfix)
              (by rw [htext']; rfl) hlast hlabel

theorem overlap_of_last {text first last label : Bytes} (htext : text = first ++ last)
    (hlast : last ≠ []) (h : last <+: label ∨ label <+: last) : Overlap text label := by
  subst htext
  rcases h with hstarts | hlabel
  · by_cases hfirst : first = []
    · subst hfirst
      exact .inl hstarts.isInfix
    · refine .inr (.inr ⟨first.length, ?_, by simpa using hfirst, .inr ?_⟩)
      · have := List.length_pos_iff.mpr hlast
        rw [List.length_append]
        omega
      · rwa [List.drop_left]
  · exact .inr (.inl (hlabel.isInfix.trans (List.suffix_append _ _).isInfix))

theorem overlap_of_suffix {text part label : Bytes} (hpart : part <:+ label) (hnonempty : part ≠ [])
    (h : text <+: part ∨ part <+: text) : Overlap text label := by
  rcases h with htext | htext
  · exact .inl (htext.isInfix.trans hpart.isInfix)
  · by_cases hwhole : part.length = text.length
    · rw [htext.eq_of_length hwhole] at hpart
      exact .inl hpart.isInfix
    · have hlength := htext.length_le
      refine .inr (.inr ⟨part.length, by omega, by simpa using hnonempty, .inl ?_⟩)
      rwa [← List.prefix_iff_eq_take.mp htext]

theorem splits_of {done front back first last : Bytes} (htext : secret = first ++ last)
    (hfirst : first ≠ []) (hlast : last ≠ []) (hspells : Spells front first)
    (hself : ∀ byte ∈ secret, shownByte byte = charOf byte)
    (h : (last.map charOf).Sublist (back.map shownByte) ∨ secret <:+: back) :
    Splits secret (done ++ (front ++ escape :: back)) := by
  have hline : done ++ (front ++ escape :: back) = (done ++ front) ++ escape :: back := by simp
  have hfollows : (last.map charOf).Sublist (back.map shownByte) := by
    rcases h with h | hstands
    · exact h
    · have hsame : last.map charOf = last.map shownByte :=
        List.map_congr_left fun byte hbyte =>
          (hself byte (htext ▸ List.mem_append_right _ hbyte)).symm
      rw [hsame]
      have hpart : last.Sublist secret := htext ▸ List.sublist_append_right _ _
      exact (hpart.trans hstands.sublist).map shownByte
  have hpositive := List.length_pos_iff.mpr hfirst
  have hmore := List.length_pos_iff.mpr hlast
  subst htext
  refine ⟨(done ++ front).length, ?_, ?_, first.length, ?_, hpositive, ?_, ?_⟩
  · rw [hline]
    simp
  · rw [hline]
    simp
  · rw [List.length_append]
    omega
  · rw [hline, List.take_left, List.take_left, List.map_append, hspells]
    exact List.suffix_append _ _
  · rw [hline, List.drop_left, ← List.drop_drop, List.drop_left]
    exact hfollows

/-- A line that spells its secret shows how. -/
theorem mayWeave_of_spelled (hsecret : secret ≠ [])
    (h : secret.map charOf <:+: apiLogSafeLine line (some secret)) : MayWeave secret line := by
  obtain ⟨before, after, hshown⟩ := h.trans apiLogSafeLine_infix
  have hself : ∀ byte ∈ secret, shownByte byte = charOf byte := by
    intro byte hbyte
    have hmem : charOf byte ∈ (redactSecret secret line).map shownByte := by
      refine (visible_sublist _).subset ?_
      rw [← hshown]
      simp only [List.mem_append]
      exact .inl (.inr (List.mem_map_of_mem hbyte))
    obtain ⟨found, _, hfound⟩ := List.mem_map.mp hmem
    exact shownByte_self hfound
  -- where the first character of the secret is shown, and what of the line is left from there on
  obtain ⟨c, cs, hchars⟩ :=
    List.exists_cons_of_ne_nil fun hnil => hsecret (List.map_eq_nil_iff.mp hnil)
  rw [List.append_assoc, hchars, List.cons_append] at hshown
  obtain ⟨front, byte, back, hredacted, hbyte, hfirst, hback⟩ := visible_split hshown.symm
  have hspelled : visible (byte :: back) = secret.map charOf ++ after := by
    rw [visible_cons hbyte, hfirst, hback, hchars, List.cons_append]
  obtain ⟨done, rest, rfl, hfrom | ⟨hstands, label, hlabel, hnonempty, hfrom⟩⟩ :=
    redactSecret_split hredacted
  · rw [hfrom] at hspelled
    have hrest : rest ≠ [] := by
      rintro rfl
      rw [redactSecret] at hfrom
      cases hfrom
    cases begins hsecret hsecret hspelled with
    | plain hspells hnot =>
      refine .inl ⟨done.length, ?_, ?_⟩
      · have := List.length_pos_iff.mpr hrest
        rw [List.length_append]
        omega
      · rw [List.drop_left]
        exact ⟨hspells, fun heq => hnot (List.prefix_iff_eq_take.mpr heq.symm)⟩
    | split front back first last hsplit htext hlast hspells hnot hfollows =>
      subst hsplit
      have hfirst : first ≠ [] := by
        rintro rfl
        obtain rfl := List.map_eq_nil_iff.mp hspells
        rw [List.nil_append, redactSecret, if_neg fun hstarts =>
          hnot (List.isPrefixOf_iff_prefix.mp hstarts.2)] at hfrom
        exact hbyte (List.cons.inj hfrom).1
      exact .inr (.inl (splits_of htext hfirst hlast hspells hself hfollows))
    | labelled first last hstands htext hlast hlabel =>
      exact .inr (.inr ⟨hstands.trans (List.suffix_append _ _).isInfix,
        overlap_of_last htext hlast hlabel⟩)
  · rw [hfrom, visible_label hlabel] at hspelled
    exact .inr (.inr ⟨hstands, overlap_of_suffix hlabel hnonempty (prefix_of_spelled hspelled)⟩)

/-! ## An output -/

/-- The last line of an output that is not blank. -/
def EndsWith (kept last : Bytes) : Prop :=
  ∃ front back, kept.splitOn newline = front ++ last :: back ∧
    (last.any fun byte => !asciiWhitespace byte) = true ∧
    ∀ line ∈ back, (line.any fun byte => !asciiWhitespace byte) = false

theorem splitOn_drop_suffix {kept : Bytes} {start : Nat} (h : kept.idxOf? newline = some start) :
    (kept.drop (start + 1)).splitOn newline <:+ kept.splitOn newline := by
  obtain ⟨hstart, hnewline, _⟩ := List.findIdx?_eq_some_iff_getElem.mp h
  have hsplit : kept = kept.take start ++ newline :: kept.drop (start + 1) := by
    rw [← beq_iff_eq.mp hnewline, ← List.drop_eq_getElem_cons hstart, List.take_append_drop]
  exact ⟨(kept.take start).splitOn newline, by rw [← List.splitOn_append_cons_self, ← hsplit]⟩

theorem endsWith_iff {kept last : Bytes} : EndsWith kept last ↔
    ((kept.splitOn newline).reverse.find? fun line => line.any fun byte => !asciiWhitespace byte) =
      some last := by
  rw [List.find?_eq_some_iff_append]
  constructor
  · rintro ⟨front, back, hsplit, hlast, hblank⟩
    refine ⟨hlast, back.reverse, front.reverse, by rw [hsplit]; simp, fun line hline => ?_⟩
    rw [hblank line (List.mem_reverse.mp hline)]
    rfl
  · rintro ⟨hlast, before, after, hreverse, hblank⟩
    refine ⟨after.reverse, before.reverse, ?_, hlast, fun line hline => ?_⟩
    · rw [← List.reverse_reverse (kept.splitOn newline), hreverse]
      simp
    · simpa using hblank line (List.mem_reverse.mp hline)

theorem endsWith_of_lastLine {kept last : Bytes} {total : Nat}
    (h : lastLine kept total = some last) : EndsWith kept last := by
  rw [endsWith_iff]
  unfold lastLine at h
  dsimp only at h
  split at h
  · split at h
    · rename_i start hstart
      obtain ⟨front, hfront⟩ := splitOn_drop_suffix hstart
      rw [← hfront, List.reverse_append, List.find?_append, h]
      rfl
    · rw [List.splitOn_nil] at h
      cases h
  · exact h

/-- What is written never spells the secret: a line, and the line that is taken from an output. -/
structure NeverSpelled (secret : Bytes) (line kept : Bytes) (total : Nat) : Prop where
  line : ¬ secret.map charOf <:+: apiLogSafeLine line (some secret)
  summary : ∀ summary, queuedStderrSummary kept total (some secret) = some summary →
    ¬ secret.map charOf <:+: summary.line

/-- A secret that the line, and the last line of the output, leave no way to put together is not
spelled. -/
theorem never_spelled (hsecret : secret ≠ []) {kept : Bytes} {total : Nat}
    (hline : ¬ MayWeave secret line) (hlast : ∀ last, EndsWith kept last → ¬ MayWeave secret last) :
    NeverSpelled secret line kept total where
  line h := hline (mayWeave_of_spelled hsecret h)
  summary summary hsummary h := by
    unfold queuedStderrSummary at hsummary
    dsimp only at hsummary
    split at hsummary
    · rename_i last hfound
      obtain rfl := Option.some.inj hsummary
      exact hlast last (endsWith_of_lastLine hfound) (mayWeave_of_spelled hsecret h)
    · split at hsummary
      · cases hsummary
      · split at hsummary
        · cases hsummary
        · obtain rfl := Option.some.inj hsummary
          have hempty : apiLogSafeLine [] (some secret) = [] := by
            unfold apiLogSafeLine
            rw [Option.getD_some, redactSecret, showLoop]
            rfl
          rw [hempty, List.infix_nil, List.map_eq_nil_iff] at h
          exact hsecret h

/-- The secret is taken out of `a pass\e[0m b`, and the escape sequence behind it dropped. -/
theorem never_spelled_pass : NeverSpelled [112, 97, 115, 115]
    [97, 32, 112, 97, 115, 115, 27, 91, 48, 109, 32, 98]
    [120, 10, 97, 32, 112, 97, 115, 115, 27, 91, 48, 109, 32, 98, 10] 20 := by
  refine never_spelled (by decide) (by decide +kernel) fun last hlast => ?_
  obtain rfl := Option.some.inj ((endsWith_iff.mp hlast).symm.trans
    (show _ = some [97, 32, 112, 97, 115, 115, 27, 91, 48, 109, 32, 98] by decide +kernel))
  decide +kernel

/-- An escape byte in the middle of the secret hides it, and is then dropped. -/
theorem not_neverSpelled_escape :
    ¬ NeverSpelled [112, 97, 115, 115] [112, 97, 27, 115, 115] [112, 97, 27, 115, 115, 10] 6 :=
  fun h => h.line ⟨[], [], by decide +kernel⟩

end Logs
end DriveSync
