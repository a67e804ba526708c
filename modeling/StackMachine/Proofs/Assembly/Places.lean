import StackMachine.Proofs.Assembly.LineGrammar
import StackMachine.Proofs.Assembly.Spans

set_option autoImplicit false

namespace StackMachine

theorem splitBytes?_append (taken left : List Char) :
    splitBytes? (byteLength taken) (taken ++ left) = some (taken, left) := by
  induction taken with
  | nil => cases left <;> rfl
  | cons c taken ih =>
    obtain ⟨bytes, wide⟩ := Nat.exists_eq_add_of_le' (Nat.add_pos_left c.utf8Size_pos
      (byteLength taken))
    have fits : c.utf8Size ≤ bytes + 1 := by omega
    have remaining : bytes + 1 - c.utf8Size = byteLength taken := by omega
    simp [byteLength, wide, splitBytes?, fits, remaining, ih]

theorem eq_append_of_splitBytes? {bytes : Nat} {chars taken left : List Char}
    (split : splitBytes? bytes chars = some (taken, left)) :
    chars = taken ++ left ∧ byteLength taken = bytes := by
  fun_induction splitBytes? bytes chars generalizing taken with
  | case1 => simp_all [byteLength]
  | case2 => cases split
  | case3 bytes c rest fits ih =>
    obtain ⟨⟨others, _⟩, deeper, same⟩ := Option.map_eq_some_iff.mp split
    cases same
    obtain ⟨rfl, length⟩ := ih deeper
    refine ⟨rfl, ?_⟩
    simp only [byteLength, length]
    omega
  | case4 => cases split

namespace Span

def Shows (offset : Nat) (chars : List Char) (span : Span) (text : List Char) : Prop :=
  ∃ before after, chars = before ++ (text ++ after) ∧ span.start = offset + byteLength before ∧
    span.stop = span.start + byteLength text

section

variable {offset : Nat} {chars first second text : List Char} {span : Span}

theorem Shows.subset (shown : span.Shows offset chars text) : text ⊆ chars := by
  obtain ⟨before, after, rfl, -⟩ := shown
  simp

theorem Shows.append_right (shown : span.Shows offset first text) :
    span.Shows offset (first ++ second) text := by
  obtain ⟨before, after, rfl, place⟩ := shown
  exact ⟨before, after ++ second, by simp, place⟩

theorem Shows.append_left (shown : span.Shows (offset + byteLength first) second text) :
    span.Shows offset (first ++ second) text := by
  obtain ⟨before, after, rfl, start, stop⟩ := shown
  refine ⟨first ++ before, after, by simp, ?_, stop⟩
  rw [byteLength_append]
  omega

theorem Shows.le_start (shown : span.Shows offset chars text) : offset ≤ span.start := by
  obtain ⟨before, after, -, start, -⟩ := shown
  omega

theorem Shows.lt_stop (shown : span.Shows offset chars text) (some : text ≠ []) :
    span.start < span.stop := by
  obtain ⟨before, after, -, -, stop⟩ := shown
  cases text with
  | nil => contradiction
  | cons c rest =>
    have wide := c.utf8Size_pos
    simp only [byteLength] at stop
    omega

theorem Shows.join {other : Span} {last : List Char} (shown : span.Shows offset chars text)
    (also : other.Shows offset chars last) (forward : span.start < other.stop) :
    ∃ between, between ≠ [] ∧ Shows offset chars ⟨span.start, other.stop⟩ between := by
  obtain ⟨before, after, split, start, -⟩ := shown
  obtain ⟨lead, rest, same, lower, upper⟩ := also
  have left : before <+: chars := ⟨_, split.symm⟩
  have right : lead ++ last <+: chars := ⟨rest, by rw [same, List.append_assoc]⟩
  have place : other.stop = offset + byteLength (lead ++ last) := by
    rw [byteLength_append]
    omega
  rcases List.prefix_or_prefix_of_prefix left right with ⟨between, joined⟩ | ⟨back, joined⟩
  · rw [← joined, byteLength_append] at place
    have some : between ≠ [] := by
      rintro rfl
      simp only [byteLength] at place
      omega
    refine ⟨between, some, before, rest, ?_, start, ?_⟩
    · rw [same, ← List.append_assoc, ← joined, List.append_assoc]
    · simp only
      omega
  · rw [← joined, byteLength_append] at start
    omega

end

theorem slice?_eq_some_iff {source text : String} {span : Span} :
    span.slice? source = some text ↔ span.Shows 0 source.toList text.toList := by
  constructor
  · intro piece
    simp only [slice?, Option.bind_eq_bind, Option.ite_none_right_eq_some, Option.bind_eq_some_iff,
      Option.some.injEq, Prod.exists] at piece
    obtain ⟨forward, before, rest, first, shown, after, second, rfl⟩ := piece
    obtain ⟨split, start⟩ := eq_append_of_splitBytes? first
    obtain ⟨rfl, stop⟩ := eq_append_of_splitBytes? second
    rw [String.toList_ofList]
    exact ⟨before, after, split, by omega, by omega⟩
  · rintro ⟨before, after, split, start, stop⟩
    have first : splitBytes? span.start source.toList = some (before, text.toList ++ after) := by
      rw [split, start, Nat.zero_add, splitBytes?_append]
    have second : splitBytes? (span.stop - span.start) (text.toList ++ after) =
        some (text.toList, after) := by
      rw [stop, Nat.add_sub_cancel_left, splitBytes?_append]
    have forward : span.start ≤ span.stop := by omega
    simp [slice?, forward, first, second]

end Span

namespace Token

theorem shows_of_mem_scanFrom {offset : Nat} {chars : List Char} {token : Token}
    (member : token ∈ scanFrom offset chars) :
    token.text.toList ≠ [] ∧ token.span.Shows offset chars token.text.toList := by
  fun_induction scanFrom offset chars with
  | case1 => cases member
  | case2 offset first rest kind chars stop ih =>
    have split : first :: rest = chars ++ rest.dropWhile kind.continuesOver := by simp [chars]
    rw [split]
    cases member with
    | head =>
      rw [String.toList_ofList]
      exact ⟨List.cons_ne_nil _ _, [], _, rfl, rfl, rfl⟩
    | tail _ later =>
      obtain ⟨some, shown⟩ := ih later
      exact ⟨some, shown.append_left⟩

def text? (source : String) (token : Token) : Option String := token.span.slice? source

theorem text?_of_mem_scan {source : String} {token : Token} (member : token ∈ scan source) :
    token.text? source = some token.text :=
  Span.slice?_eq_some_iff.mpr (shows_of_mem_scanFrom member).2

theorem pairwise_scanFrom (offset : Nat) (chars : List Char) :
    (scanFrom offset chars).Pairwise fun a b => a.span.stop ≤ b.span.start := by
  fun_induction scanFrom offset chars with
  | case1 => exact .nil
  | case2 offset first rest kind chars stop ih =>
    apply List.Pairwise.cons _ ih
    intro token later
    exact (shows_of_mem_scanFrom later).2.le_start

theorem ofFirst_eq_newline {first : Char} (newline : TokenKind.ofFirst first = .newline) :
    first = '\n' := by
  unfold TokenKind.ofFirst at newline
  by_contra other
  simp only [if_neg other] at newline
  repeat' split at newline
  all_goals cases newline

theorem kind_ne_newline {offset : Nat} {chars : List Char} (short : '\n' ∉ chars) {token : Token}
    (member : token ∈ scanFrom offset chars) : token.kind ≠ .newline := by
  obtain ⟨first, rest, text, kind⟩ := isLexeme_of_mem_scanFrom member
  have inside : first ∈ chars := by
    apply (shows_of_mem_scanFrom member).2.subset
    simp [text]
  intro newline
  rw [kind] at newline
  exact short (ofFirst_eq_newline newline ▸ inside)

theorem lines_of_one {tokens : List Token} (short : ∀ token ∈ tokens, token.kind ≠ .newline) :
    lines tokens = [tokens] := by
  rw [lines_eq_splitOnP]
  apply List.splitOnP_eq_singleton
  simpa using short

theorem exists_of_mem_lines_scanFrom {offset : Nat} {chars : List Char} {line : List Token}
    (member : line ∈ lines (scanFrom offset chars)) :
    ∃ above within below, chars = above ++ (within ++ below) ∧ '\n' ∉ within ∧
      line = scanFrom (offset + byteLength above) within := by
  by_cases short : '\n' ∉ chars
  · rw [lines_of_one fun token => kind_ne_newline short, List.mem_singleton] at member
    exact ⟨[], chars, [], by simp, short, by simpa [byteLength] using member⟩
  · obtain ⟨first, rest, split, fresh⟩ := List.eq_append_cons_of_mem (not_not.mp short)
    have fewer : rest.length < chars.length := by
      rw [split, List.length_append, List.length_cons]
      omega
    rw [split, scanFrom_append_newline, lines_append_newline rfl, List.mem_append] at member
    obtain here | later := member
    · rw [lines_of_one fun token => kind_ne_newline fresh, List.mem_singleton] at here
      exact ⟨[], first, '\n' :: rest, split, fresh, by simpa [byteLength] using here⟩
    · obtain ⟨above, within, below, same, short, rfl⟩ := exists_of_mem_lines_scanFrom later
      refine ⟨first ++ '\n' :: above, within, below, by simp [split, same], short, ?_⟩
      have newline : '\n'.utf8Size = 1 := rfl
      simp only [byteLength_append, byteLength, newline]
      congr 1
      omega
termination_by chars.length

theorem flatten_lines_sublist (tokens : List Token) : (lines tokens).flatten.Sublist tokens := by
  induction tokens with
  | nil => exact .slnil
  | cons token rest ih =>
    rw [lines]
    split
    next => exact ih.cons token
    next =>
      cases split : lines rest with
      | nil => exact absurd split (lines_ne_nil rest)
      | cons line others =>
        rw [split] at ih
        exact ih.cons_cons token

end Token

namespace Span

structure Joined (tokens : List Token) (span : Span) : Prop where
  start : ∃ token ∈ tokens, span.start = token.span.start
  stop : ∃ token ∈ tokens, span.stop = token.span.stop
  forward : span.start < span.stop

def JoinedAlike (tokens : List Token) (a b : Span) : Prop := a = b ∧ a.Joined tokens

theorem joins_joined (tokens : List Token) : Joins (JoinedAlike tokens) := by
  constructor
  rintro a _ c _ ⟨rfl, first⟩ ⟨rfl, second⟩
  have start : ∃ token ∈ tokens, min a.start c.start = token.span.start := by
    by_cases order : a.start ≤ c.start
    · rw [Nat.min_eq_left order]
      exact first.start
    · rw [Nat.min_eq_right (by omega)]
      exact second.start
  have stop : ∃ token ∈ tokens, max a.stop c.stop = token.span.stop := by
    by_cases order : a.stop ≤ c.stop
    · rw [Nat.max_eq_right order]
      exact second.stop
    · rw [Nat.max_eq_left (by omega)]
      exact first.stop
  have forward : min a.start c.start < max a.stop c.stop := by
    have lower := first.forward
    omega
  exact ⟨rfl, start, stop, forward⟩

end Span

namespace Statement

variable {tokens : List Token} {statement : Statement}

theorem alike_tokens (wide : ∀ token ∈ tokens, token.span.start < token.span.stop) :
    List.Forall₂ (Token.Alike (Span.JoinedAlike tokens)) tokens tokens := by
  rw [List.forall₂_same]
  intro token member
  exact ⟨rfl, rfl, rfl, ⟨token, member, rfl⟩, ⟨token, member, rfl⟩, wide token member⟩

theorem alike_parseLine_self (wide : ∀ token ∈ tokens, token.span.start < token.span.stop) :
    Parsed.Alike (Span.JoinedAlike tokens) (parseLine tokens) (parseLine tokens) :=
  alike_parseLine (Span.joins_joined tokens) (alike_tokens wide) rfl

theorem joined_of_mem_parseLine (wide : ∀ token ∈ tokens, token.span.start < token.span.stop)
    (member : statement ∈ (parseLine tokens).statements) : statement.span.Joined tokens :=
  (List.forall₂_same.mp (alike_parseLine_self wide).statements statement member).span.2

theorem joined_of_mem_diagnostics
    (wide : ∀ token ∈ tokens, token.span.start < token.span.stop) {d : Diagnostic}
    (member : d ∈ (parseLine tokens).diagnostics) :
    d.span.Joined tokens ∧ ∀ note ∈ d.notes, note.span.Joined tokens := by
  have alike := List.forall₂_same.mp (alike_parseLine_self wide).diagnostics d member
  constructor
  · exact alike.span.2
  · intro note among
    exact (List.forall₂_same.mp alike.notes note among).span.2

theorem joined_of_mem_parseRest (wide : ∀ token ∈ tokens, token.span.start < token.span.stop)
    (member : statement ∈ (parseRest tokens).statements) : statement.span.Joined tokens := by
  have alike := (alike_parseRest (Span.joins_joined tokens) (alike_tokens wide)).statements
  exact (List.forall₂_same.mp alike statement member).span.2

theorem pairwise_parseLine (wide : ∀ token ∈ tokens, token.span.start < token.span.stop)
    (ordered : tokens.Pairwise fun a b => a.span.stop ≤ b.span.start) :
    (parseLine tokens).statements.Pairwise fun a b => a.span.stop ≤ b.span.start := by
  have single (rest : List Token) :
      (parseRest rest).statements.Pairwise fun a b => a.span.stop ≤ b.span.start := by
    unfold parseRest
    split
    next => exact .nil
    next => split <;> simp
  obtain ⟨name, colon, rest, rfl, -, split⟩ | ⟨-, split⟩ := splitLabel_cases tokens
  · rw [parseLine, split]
    apply List.Pairwise.cons _ (single rest)
    intro statement member
    have inside : ∀ token ∈ rest, token.span.start < token.span.stop := by
      intro token later
      exact wide token (List.mem_cons_of_mem name (List.mem_cons_of_mem colon later))
    obtain ⟨token, later, start⟩ := (joined_of_mem_parseRest inside member).start
    rw [start]
    exact (List.pairwise_cons.mp ordered).1 token (List.mem_cons_of_mem colon later)
  · rw [parseLine, split]
    exact single tokens

theorem RestReads.kind_ne_label {parsed : Parsed} (reads : RestReads tokens parsed)
    (member : statement ∈ parsed.statements) (name : String) : statement.kind ≠ .label name := by
  cases reads with
  | nothing | fault _ => cases member
  | statement readable =>
    rw [List.mem_singleton] at member
    subst member
    cases readable <;> exact nofun

theorem LineReads.exists_token {parsed : Parsed} {name : String} (reads : LineReads tokens parsed)
    (member : statement ∈ parsed.statements) (label : statement.kind = .label name) :
    ∃ token ∈ tokens, statement = ofLabel token := by
  cases reads with
  | @labelled first colon rest parsed _ reads =>
    obtain rfl | later := List.mem_cons.mp member
    · exact ⟨first, List.mem_cons_self, rfl⟩
    · exact absurd label (reads.kind_ne_label later name)
  | unlabelled _ reads => exact absurd label (reads.kind_ne_label member name)

theorem RestReads.exists_target {parsed : Parsed} {op : BranchOp} {name : String} {span : Span}
    (reads : RestReads tokens parsed) (member : statement ∈ parsed.statements)
    (branch : statement.kind = .branch op name span) :
    ∃ token ∈ tokens, name = token.text ∧ span = token.span := by
  cases reads with
  | nothing | fault _ => cases member
  | statement readable =>
    rw [List.mem_singleton] at member
    subst member
    cases readable with
    | @branch head target _ _ _ =>
      cases branch
      exact ⟨target, by simp, rfl, rfl⟩
    | plain | push | pop => cases branch

theorem LineReads.exists_target {parsed : Parsed} {op : BranchOp} {name : String} {span : Span}
    (reads : LineReads tokens parsed) (member : statement ∈ parsed.statements)
    (branch : statement.kind = .branch op name span) :
    ∃ token ∈ tokens, name = token.text ∧ span = token.span := by
  cases reads with
  | @labelled first colon rest parsed _ reads =>
    obtain rfl | later := List.mem_cons.mp member
    · cases branch
    · obtain ⟨token, inside, same⟩ := reads.exists_target later branch
      exact ⟨token, List.mem_cons_of_mem first (List.mem_cons_of_mem colon inside), same⟩
  | unlabelled _ reads => exact reads.exists_target member branch

end Statement

section

variable {source : String} {line : List Token}

theorem mem_scan_of_mem_line (inside : line ∈ Token.lines (Token.scan source)) {token : Token}
    (member : token ∈ Token.significant line) : token ∈ Token.scan source :=
  Token.mem_of_mem_lines inside (List.mem_of_mem_filter member)

theorem wide_of_mem_line (inside : line ∈ Token.lines (Token.scan source)) :
    ∀ token ∈ Token.significant line, token.span.start < token.span.stop := by
  intro token member
  obtain ⟨some, shown⟩ := Token.shows_of_mem_scanFrom (mem_scan_of_mem_line inside member)
  exact shown.lt_stop some

theorem shows_of_joined (inside : line ∈ Token.lines (Token.scan source)) {span : Span}
    (joined : span.Joined (Token.significant line)) :
    ∃ text, text ≠ [] ∧ '\n' ∉ text ∧ span.Shows 0 source.toList text := by
  obtain ⟨above, within, below, split, short, rfl⟩ := Token.exists_of_mem_lines_scanFrom inside
  obtain ⟨first, begins, start⟩ := joined.start
  obtain ⟨last, ends, stop⟩ := joined.stop
  have left := (Token.shows_of_mem_scanFrom (List.mem_of_mem_filter begins)).2
  have right := (Token.shows_of_mem_scanFrom (List.mem_of_mem_filter ends)).2
  have forward := joined.forward
  rw [start, stop] at forward
  obtain ⟨text, some, shown⟩ := left.join right forward
  rw [← start, ← stop] at shown
  have fresh : '\n' ∉ text := fun member => short (shown.subset member)
  refine ⟨text, some, fresh, ?_⟩
  rw [split]
  exact shown.append_right.append_left

theorem flatten_lines_sublist_scan (source : String) :
    ((Token.lines (Token.scan source)).map Token.significant).flatten.Sublist
      (Token.scan source) := by
  rw [Token.significant_lines]
  exact (Token.flatten_lines_sublist _).trans List.filter_sublist

theorem pairwise_lines (source : String) :
    ((Token.lines (Token.scan source)).map Token.significant).flatten.Pairwise
      fun a b => a.span.stop ≤ b.span.start :=
  (Token.pairwise_scanFrom 0 source.toList).sublist (flatten_lines_sublist_scan source)

end

namespace Statement

variable {source : String} {statement : Statement}

theorem exists_line (member : statement ∈ (parse source).statements) :
    ∃ line ∈ Token.lines (Token.scan source),
      statement ∈ (parseLine (Token.significant line)).statements := by
  simpa [parse] using member

theorem exists_line_of_diagnostic {d : Diagnostic} (member : d ∈ (parse source).diagnostics) :
    ∃ line ∈ Token.lines (Token.scan source),
      d ∈ (parseLine (Token.significant line)).diagnostics := by
  simpa [parse] using member

theorem statements_parse (source : String) :
    (parse source).statements = ((Token.lines (Token.scan source)).map Token.significant).flatMap
      fun line => (parseLine line).statements := by
  simp only [parse, List.flatMap_map]

theorem pairwise_parse (source : String) :
    (parse source).statements.Pairwise fun a b => a.span.stop ≤ b.span.start := by
  obtain ⟨within, across⟩ := List.pairwise_flatten.mp (pairwise_lines source)
  have wide : ∀ line ∈ (Token.lines (Token.scan source)).map Token.significant,
      ∀ token ∈ line, token.span.start < token.span.stop := by
    intro line inside
    obtain ⟨whole, among, rfl⟩ := List.mem_map.mp inside
    exact wide_of_mem_line among
  rw [statements_parse]
  apply List.pairwise_flatMap.mpr
  constructor
  · intro line inside
    exact pairwise_parseLine (wide line inside) (within line inside)
  · apply across.imp_of_mem
    intro first second inside also order a above b below
    obtain ⟨last, ends, stop⟩ := (joined_of_mem_parseLine (wide first inside) above).stop
    obtain ⟨head, begins, start⟩ := (joined_of_mem_parseLine (wide second also) below).start
    rw [stop, start]
    exact order last ends head begins

theorem exists_name {name : String} (member : statement ∈ (parse source).statements)
    (label : statement.kind = .label name) :
    ∃ line ∈ Token.lines (Token.scan source), ∃ token ∈ Token.significant line,
      name = token.text ∧ statement.span = token.span := by
  obtain ⟨line, inside, member⟩ := exists_line member
  obtain ⟨token, among, rfl⟩ := (lineReads_parseLine _).exists_token member label
  cases label
  exact ⟨line, inside, token, among, rfl, rfl⟩

theorem exists_target {op : BranchOp} {name : String} {span : Span}
    (member : statement ∈ (parse source).statements)
    (branch : statement.kind = .branch op name span) :
    ∃ line ∈ Token.lines (Token.scan source), ∃ token ∈ Token.significant line,
      name = token.text ∧ span = token.span := by
  obtain ⟨line, inside, member⟩ := exists_line member
  obtain ⟨token, among, text, place⟩ :=
    (lineReads_parseLine _).exists_target member branch
  exact ⟨line, inside, token, among, text, place⟩

end Statement

end StackMachine
