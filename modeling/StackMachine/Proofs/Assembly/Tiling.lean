import Mathlib.Data.List.Chain
import StackMachine.Proofs.Assembly.Places

set_option autoImplicit false

namespace StackMachine

namespace TokenKind

def Holds : TokenKind → List Char → Prop
  | .word, text => ∀ c ∈ text, isWhiteSpace c = false ∧ c ∉ ['+', '[', ']', ':', ';']
  | .plus, text => text = ['+']
  | .bracketOpen, text => text = ['[']
  | .bracketClose, text => text = [']']
  | .colon, text => text = [':']
  | .newline, text => text = ['\n']
  | .whitespace, text => ∀ c ∈ text, c ∈ [' ', '\t', '\r', '\x0c']
  | .comment, text => text.head? = some ';' ∧ '\n' ∉ text
  | .garbage, text => ∀ c ∈ text, isWhiteSpace c = true ∧ c ∉ [' ', '\t', '\r', '\x0c', '\n']

theorem isWordChar_iff {c : Char} :
    isWordChar c = true ↔ isWhiteSpace c = false ∧ c ∉ ['+', '[', ']', ':', ';'] := by
  simp [isWordChar, isPunctuation, and_assoc]

theorem isBlank_iff {c : Char} : isBlank c = true ↔ c ∈ [' ', '\t', '\r', '\x0c'] := by
  simp [isBlank, or_assoc]

theorem isGarbage_iff {c : Char} :
    isGarbage c = true ↔ isWhiteSpace c = true ∧ c ∉ [' ', '\t', '\r', '\x0c', '\n'] := by
  simp [isGarbage, isBlank, and_assoc]

theorem holds_cons_iff {kind : TokenKind} {c : Char} {rest : List Char} :
    kind.Holds (c :: rest) ↔ kind.Holds [c] ∧ ∀ x ∈ rest, kind.continuesOver x = true := by
  cases kind with
  | word => simp [Holds, continuesOver, isWordChar_iff]
  | whitespace => simp [Holds, continuesOver, isBlank_iff]
  | garbage => simp [Holds, continuesOver, isGarbage_iff]
  | comment =>
    simp only [Holds, continuesOver, bne_iff_ne]
    grind
  | plus | bracketOpen | bracketClose | colon | newline =>
    simp [Holds, continuesOver, List.eq_nil_iff_forall_not_mem]

theorem holds_ofFirst (c : Char) : (ofFirst c).Holds [c] := by
  unfold ofFirst
  repeat' split
  all_goals simp_all [Holds, isBlank_iff]

theorem isWhiteSpace_of_isBlank {c : Char} (blank : isBlank c = true) : isWhiteSpace c = true := by
  simp only [isBlank, Bool.or_eq_true, beq_iff_eq] at blank
  rcases blank with ((rfl | rfl) | rfl) | rfl <;> decide

theorem ofFirst_of_holds {kind : TokenKind} {c : Char} (holds : kind.Holds [c]) :
    ofFirst c = kind := by
  cases kind with
  | word =>
    obtain ⟨visible, mark⟩ := List.forall_mem_singleton.mp holds
    have other : c ≠ '\n' := by
      rintro rfl
      exact absurd visible (by decide)
    have blank : isBlank c = false := Bool.eq_false_iff.mpr fun blank => by
      simp [isWhiteSpace_of_isBlank blank] at visible
    simp_all [ofFirst]
  | whitespace =>
    have blank : isBlank c = true := isBlank_iff.mpr (List.forall_mem_singleton.mp holds)
    simp only [isBlank, Bool.or_eq_true, beq_iff_eq] at blank
    rcases blank with ((rfl | rfl) | rfl) | rfl <;> decide
  | garbage =>
    obtain ⟨white, other⟩ := List.forall_mem_singleton.mp holds
    have mark : isPunctuation c = false := Bool.eq_false_iff.mpr fun mark => by
      simp only [isPunctuation, Bool.or_eq_true, beq_iff_eq] at mark
      rcases mark with (((rfl | rfl) | rfl) | rfl) | rfl <;> exact absurd white (by decide)
    simp_all [ofFirst, isBlank, isPunctuation]
  | comment =>
    cases Option.some.inj holds.1
    decide
  | plus | bracketOpen | bracketClose | colon | newline =>
    cases holds
    decide

def runs : List TokenKind := [.word, .whitespace, .garbage]

theorem holds_singleton_iff {kind : TokenKind} {c : Char} (run : kind ∈ runs) :
    kind.Holds [c] ↔ kind.continuesOver c = true := by
  simp only [runs, List.mem_cons, List.not_mem_nil, or_false] at run
  rcases run with rfl | rfl | rfl <;> simp only [Holds, List.forall_mem_singleton, continuesOver]
  · exact isWordChar_iff.symm
  · exact isBlank_iff.symm
  · exact isGarbage_iff.symm

theorem continuesOver_eq_false_iff {kind : TokenKind} {c : Char} :
    kind.continuesOver c = false ↔
      ¬(kind = ofFirst c ∧ kind ∈ runs) ∧ (kind = .comment → c = '\n') := by
  by_cases run : kind ∈ runs
  · have continues : kind.continuesOver c = true ↔ kind = ofFirst c := by
      rw [← holds_singleton_iff run]
      exact ⟨fun holds => (ofFirst_of_holds holds).symm, fun same => same ▸ holds_ofFirst c⟩
    have other : kind ≠ .comment := by
      rintro rfl
      exact absurd run (by decide)
    simp [← Bool.not_eq_true, continues, run, other]
  · cases kind with
    | comment => simp [continuesOver, run]
    | word | whitespace | garbage => exact absurd (by decide) run
    | plus | bracketOpen | bracketClose | colon | newline => simp [continuesOver, run]

theorem continuesOver_garbage {c : Char} (other : ofFirst c ≠ .garbage) :
    continuesOver .garbage c = false := by
  refine continuesOver_eq_false_iff.mpr ⟨?_, ?_⟩
  · rintro ⟨same, -⟩
    exact other same.symm
  · intro comment
    cases comment

end TokenKind

namespace Token

def place (offset : Nat) (kind : TokenKind) (text : List Char) : Token :=
  ⟨kind, ⟨offset, offset + byteLength text⟩, String.ofList text⟩

theorem scanFrom_append {kind : TokenKind} {text rest : List Char} (offset : Nat)
    (some : text ≠ []) (holds : kind.Holds text)
    (ends : ∀ c ∈ rest.head?, kind.continuesOver c = false) :
    scanFrom offset (text ++ rest) =
      place offset kind text :: scanFrom (offset + byteLength text) rest := by
  obtain ⟨first, others, rfl⟩ := List.exists_cons_of_ne_nil some
  obtain ⟨begins, continues⟩ := TokenKind.holds_cons_iff.mp holds
  have stops : rest.takeWhile kind.continuesOver = [] ∧
      rest.dropWhile kind.continuesOver = rest := by
    cases rest with
    | nil => exact ⟨rfl, rfl⟩
    | cons c rest => simp [ends c rfl]
  rw [List.cons_append, scanFrom, TokenKind.ofFirst_of_holds begins,
    List.takeWhile_append_of_pos continues, List.dropWhile_append_of_pos continues, stops.1,
    stops.2, List.append_nil]
  rfl

theorem exists_first (first : Char) (rest : List Char) :
    ∃ text others, rest = text ++ others ∧ (TokenKind.ofFirst first).Holds (first :: text) ∧
      ∀ c ∈ others.head?, (TokenKind.ofFirst first).continuesOver c = false := by
  let kind := TokenKind.ofFirst first
  refine ⟨rest.takeWhile kind.continuesOver, rest.dropWhile kind.continuesOver, by simp,
    TokenKind.holds_cons_iff.mpr
      ⟨TokenKind.holds_ofFirst first, List.all_eq_true.mp List.all_takeWhile⟩,
    fun c begins => ?_⟩
  have stops := List.head?_dropWhile_not kind.continuesOver rest
  rw [begins] at stops
  simpa using stops

theorem scan_induction {motive : Nat → List Char → Prop} (nil : ∀ offset, motive offset [])
    (cons : ∀ offset kind text rest, text ≠ [] → TokenKind.Holds kind text →
      (∀ c ∈ rest.head?, kind.continuesOver c = false) → motive (offset + byteLength text) rest →
      motive offset (text ++ rest))
    (offset : Nat) (chars : List Char) : motive offset chars := by
  induction length : chars.length using Nat.strong_induction_on generalizing offset chars with
  | _ n ih =>
    cases chars with
    | nil => exact nil offset
    | cons first rest =>
      obtain ⟨text, others, rfl, holds, ends⟩ := exists_first first rest
      have shorter : others.length < n := by
        rw [← length, List.length_cons, List.length_append]
        omega
      exact cons offset _ (first :: text) others (List.cons_ne_nil _ _) holds ends
        (ih _ shorter _ _ rfl)

inductive Spells : Nat → List Token → List Char → Prop
  | nil (offset : Nat) : Spells offset [] []
  | cons {offset : Nat} {kind : TokenKind} {text rest : List Char} {tokens : List Token}
      (later : Spells (offset + byteLength text) tokens rest) :
      Spells offset (place offset kind text :: tokens) (text ++ rest)

inductive Covers : Nat → List Token → Nat → Prop
  | nil (offset : Nat) : Covers offset [] offset
  | cons (token : Token) {tokens : List Token} {stop : Nat}
      (later : Covers token.span.stop tokens stop) :
      Covers token.span.start (token :: tokens) stop

theorem Spells.covers {offset : Nat} {tokens : List Token} {chars : List Char}
    (spells : Spells offset tokens chars) :
    Covers offset tokens (offset + byteLength chars) := by
  induction spells with
  | nil offset => exact .nil offset
  | @cons offset kind text rest tokens later ih =>
    rw [byteLength_append, ← Nat.add_assoc]
    exact .cons (place offset kind text) ih

theorem Spells.join {offset : Nat} {tokens : List Token} {chars : List Char}
    (spells : Spells offset tokens chars) :
    String.join (tokens.map text) = String.ofList chars := by
  induction spells with
  | nil => rfl
  | cons later ih => rw [List.map_cons, String.join_cons, ih, place, String.ofList_append]

theorem eq_nil_of_byteLength {chars : List Char} (empty : byteLength chars = 0) : chars = [] := by
  cases chars with
  | nil => rfl
  | cons c rest =>
    have wide := c.utf8Size_pos
    simp only [byteLength] at empty
    omega

theorem Covers.spells {start stop : Nat} {tokens : List Token} (before : List Char)
    {rest : List Char} (covers : Covers start tokens stop) (begins : start = byteLength before)
    (ends : stop = byteLength (before ++ rest))
    (shown : ∀ token ∈ tokens, token.span.Shows 0 (before ++ rest) token.text.toList) :
    Spells start tokens rest := by
  induction covers generalizing before rest with
  | nil offset =>
    rw [byteLength_append] at ends
    obtain rfl : rest = [] := eq_nil_of_byteLength (by omega)
    exact .nil offset
  | @cons token others stop later ih =>
    obtain ⟨lead, after, split, leads, wide⟩ := shown token List.mem_cons_self
    -- Both ways to split the text do so at the same offset.
    have first := splitBytes?_append lead (token.text.toList ++ after)
    rw [← split, show byteLength lead = byteLength before by omega, splitBytes?_append] at first
    cases first
    have further : Spells (token.span.start + byteLength token.text.toList) others after := by
      rw [← wide]
      refine ih (before ++ token.text.toList) ?_ ?_ fun other member => ?_
      · rw [wide, begins, byteLength_append]
      · rw [ends, List.append_assoc]
      · rw [List.append_assoc]
        exact shown other (List.mem_cons_of_mem token member)
    have whole : Spells token.span.start
        (place token.span.start token.kind token.text.toList :: others) _ := .cons further
    rw [place, ← wide, String.ofList_toList] at whole
    exact whole

theorem spells_scanFrom (offset : Nat) (chars : List Char) :
    Spells offset (scanFrom offset chars) chars := by
  induction offset, chars using scan_induction with
  | nil offset => exact (scanFrom.eq_1 offset).symm ▸ .nil offset
  | cons offset kind text rest some holds ends ih =>
    rw [scanFrom_append offset some holds ends]
    exact .cons ih

theorem holds_of_mem_scanFrom {offset : Nat} {chars : List Char} {token : Token}
    (member : token ∈ scanFrom offset chars) : token.kind.Holds token.text.toList := by
  induction offset, chars using scan_induction with
  | nil => simp [scanFrom] at member
  | cons offset kind text rest some holds ends ih =>
    rw [scanFrom_append offset some holds ends] at member
    cases member with
    | head => rwa [place, String.toList_ofList]
    | tail _ later => exact ih later

def MayFollow (left right : Token) : Prop :=
  ¬(left.kind = right.kind ∧ left.kind ∈ [.word, .whitespace, .garbage]) ∧
    (left.kind = .comment → right.text.toList.head? = some '\n')

theorem exists_mayFollow_iff (offset : Nat) (first : Char) (rest : List Char) :
    ∃ token others, scanFrom offset (first :: rest) = token :: others ∧
      ∀ left : Token, MayFollow left token ↔ left.kind.continuesOver first = false := by
  refine ⟨_, _, by rw [scanFrom], fun left => ?_⟩
  simp [MayFollow, TokenKind.continuesOver_eq_false_iff, TokenKind.runs]

theorem isChain_scanFrom (offset : Nat) (chars : List Char) :
    (scanFrom offset chars).IsChain MayFollow := by
  induction offset, chars using scan_induction with
  | nil => simp [scanFrom]
  | cons offset kind text rest some holds ends ih =>
    rw [scanFrom_append offset some holds ends]
    cases rest with
    | nil => simp [scanFrom]
    | cons c rest =>
      obtain ⟨right, others, scanned, follows⟩ :=
        exists_mayFollow_iff (offset + byteLength text) c rest
      rw [scanned] at ih ⊢
      exact .cons_cons ((follows _).mpr (ends c rfl)) ih

theorem Spells.eq_scanFrom {offset : Nat} {tokens : List Token} {chars : List Char}
    (spells : Spells offset tokens chars) (some : ∀ token ∈ tokens, token.text ≠ "")
    (holds : ∀ token ∈ tokens, token.kind.Holds token.text.toList)
    (apart : tokens.IsChain MayFollow) : tokens = scanFrom offset chars := by
  induction spells with
  | nil offset => simp [scanFrom]
  | @cons offset kind text rest tokens later ih =>
    obtain ⟨someFirst, someLater⟩ := List.forall_mem_cons.mp some
    obtain ⟨holdsFirst, holdsLater⟩ := List.forall_mem_cons.mp holds
    obtain rfl := ih someLater holdsLater apart.tail
    have ends : ∀ c ∈ rest.head?, kind.continuesOver c = false := by
      intro c begins
      obtain ⟨others, rfl⟩ := List.head?_eq_some_iff.mp begins
      obtain ⟨right, further, scanned, follows⟩ :=
        exists_mayFollow_iff (offset + byteLength text) c others
      rw [scanned, List.isChain_cons_cons] at apart
      exact (follows _).mp apart.1
    rw [scanFrom_append offset (by simpa [place] using someFirst)
      (by simpa [place] using holdsFirst) ends]

structure Tiles (source : String) (tokens : List Token) : Prop where
  covers : Covers 0 tokens source.utf8ByteSize
  shown : ∀ token ∈ tokens, token.text? source = some token.text
  some : ∀ token ∈ tokens, token.text ≠ ""
  holds : ∀ token ∈ tokens, token.kind.Holds token.text.toList
  apart : tokens.IsChain MayFollow

theorem tiles_iff {source : String} {tokens : List Token} :
    Tiles source tokens ↔ tokens = scan source := by
  constructor
  · rintro ⟨covers, shown, some, holds, apart⟩
    have spells : Spells 0 tokens source.toList :=
      covers.spells [] rfl (byteLength_toList source).symm
        fun token member => Span.slice?_eq_some_iff.mp (shown token member)
    exact spells.eq_scanFrom some holds apart
  · rintro rfl
    refine ⟨?_, fun _ => text?_of_mem_scan, fun token member => ?_,
      fun _ => holds_of_mem_scanFrom, isChain_scanFrom 0 source.toList⟩
    · rw [← byteLength_toList, ← Nat.zero_add (byteLength source.toList)]
      exact (spells_scanFrom 0 source.toList).covers
    · simpa using (shows_of_mem_scanFrom member).1

def Accepts (kind : TokenKind) (text : List Char) : Prop :=
  kind ≠ .garbage ∧ text ≠ [] ∧ kind.Holds text

/-- What a matcher makes of a text: where a rule accepts what comes first, it takes the longest text
that one accepts, and its errors cover characters at which none does. -/
inductive Matches : Nat → List Char → List Token → Prop
  | done (offset : Nat) : Matches offset [] []
  | rule {offset : Nat} {kind : TokenKind} {text rest : List Char} {later : List Token}
      (accepts : Accepts kind text)
      (longest : ∀ other more, more <+: text ++ rest → Accepts other more →
        more.length ≤ text.length)
      (others : Matches (offset + byteLength text) rest later) :
      Matches offset (text ++ rest) (place offset kind text :: later)
  | error {offset : Nat} {text rest : List Char} {later : List Token} (some : text ≠ [])
      (none : ∀ first last, last ≠ [] → text = first ++ last →
        ∀ kind more, more <+: last ++ rest → ¬Accepts kind more)
      (others : Matches (offset + byteLength text) rest later) :
      Matches offset (text ++ rest) (place offset .garbage text :: later)

def join (left right : Token) : Token :=
  ⟨left.kind, left.span.cover right.span, left.text ++ right.text⟩

def mergeFrom (last : Token) : List Token → List Token
  | [] => [last]
  | token :: rest =>
    if token.kind = .garbage ∧ last.kind = .garbage then mergeFrom (last.join token) rest
    else last :: mergeFrom token rest

def merge : List Token → List Token
  | [] => []
  | token :: rest => mergeFrom token rest

theorem exists_mergeFrom (last : Token) (rest : List Token) :
    ∃ token others, mergeFrom last rest = token :: others ∧ token.kind = last.kind := by
  induction rest generalizing last with
  | nil => exact ⟨last, [], rfl, rfl⟩
  | cons next rest ih =>
    rw [mergeFrom]
    split
    next => exact ih (last.join next)
    next => exact ⟨last, _, rfl, rfl⟩

theorem join_assoc (first second third : Token) :
    (first.join second).join third = first.join (second.join third) := by
  simp [join, Span.cover, String.append_assoc, Nat.min_assoc, Nat.max_assoc]

theorem join_place (offset : Nat) (kind other : TokenKind) (text more : List Char) :
    (place offset kind text).join (place (offset + byteLength text) other more) =
      place offset kind (text ++ more) := by
  simp [join, place, Span.cover, String.ofList_append, Nat.add_assoc]

theorem mergeFrom_join {first second : Token} (garbage : second.kind = .garbage)
    (alike : first.kind = second.kind) (rest : List Token) :
    mergeFrom (first.join second) rest = (mergeFrom second rest).modifyHead first.join := by
  induction rest generalizing second with
  | nil => rfl
  | cons next rest ih =>
    have same : (first.join second).kind = second.kind := alike
    rw [mergeFrom, mergeFrom, same]
    split
    next =>
      have later := @ih (second.join next) garbage alike
      rw [join_assoc, later]
    next => rfl

theorem merge_cons_of_ne {token : Token} (kind : token.kind ≠ .garbage) (rest : List Token) :
    merge (token :: rest) = token :: merge rest := by
  cases rest with
  | nil => rfl
  | cons next rest => simp [merge, mergeFrom, kind]

theorem merge_error {offset : Nat} {text rest : List Char} {later : List Token}
    (some : text ≠ []) (holds : TokenKind.garbage.Holds text)
    (merged : merge later = scanFrom (offset + byteLength text) rest) :
    merge (place offset .garbage text :: later) = scanFrom offset (text ++ rest) := by
  cases later with
  | nil =>
    obtain rfl : rest = [] := by
      cases rest with
      | nil => rfl
      | cons c rest => simp [merge, scanFrom] at merged
    rw [scanFrom_append offset some holds (by simp), ← merged]
    rfl
  | cons next later =>
    rw [merge] at merged
    obtain ⟨token, others, begins, kind⟩ := exists_mergeFrom next later
    cases rest with
    | nil => simp [begins, scanFrom] at merged
    | cons c rest =>
      obtain ⟨more, others', rfl, holds', ends⟩ := exists_first c rest
      have scanned :=
        scanFrom_append (offset + byteLength text) (List.cons_ne_nil c more) holds' ends
      rw [List.cons_append] at scanned
      have same : TokenKind.ofFirst c = next.kind := by
        rw [scanned, begins, List.cons.injEq] at merged
        rw [← kind, merged.1]
        rfl
      by_cases garbage : next.kind = .garbage
      · rw [same.trans garbage] at scanned holds' ends
        have whole : TokenKind.garbage.Holds (text ++ c :: more) :=
          List.forall_mem_append.mpr ⟨holds, holds'⟩
        have split : text ++ c :: (more ++ others') = (text ++ c :: more) ++ others' := by simp
        rw [merge, mergeFrom, if_pos ⟨garbage, rfl⟩, mergeFrom_join garbage garbage.symm, merged,
          scanned, List.modifyHead_cons, join_place, split, scanFrom_append offset (by simp) whole ends,
          byteLength_append, Nat.add_assoc]
      · have apart : ∀ d ∈ (c :: (more ++ others')).head?,
            TokenKind.garbage.continuesOver d = false := by
          rintro _ ⟨⟩
          exact TokenKind.continuesOver_garbage fun begins => garbage (same.symm.trans begins)
        rw [merge, mergeFrom, if_neg (fun both => garbage both.1), merged,
          scanFrom_append offset some holds apart]

theorem Matches.merge_eq {offset : Nat} {chars : List Char} {tokens : List Token}
    (matched : Matches offset chars tokens) : merge tokens = scanFrom offset chars := by
  induction matched with
  | done offset => simp [merge, scanFrom]
  | @rule offset kind text rest later accepts longest others ih =>
    obtain ⟨plain, some, holds⟩ := accepts
    have ends : ∀ c ∈ rest.head?, kind.continuesOver c = false := by
      intro c begins
      obtain ⟨further, rfl⟩ := List.head?_eq_some_iff.mp begins
      refine Bool.eq_false_iff.mpr fun continues => ?_
      -- The text would not be the longest one.
      have more : Accepts kind (text ++ [c]) := by
        refine ⟨plain, by simp, ?_⟩
        obtain ⟨first, chars, rfl⟩ := List.exists_cons_of_ne_nil some
        rw [List.cons_append, TokenKind.holds_cons_iff] at *
        grind
      have short := longest kind (text ++ [c]) ⟨further, by simp⟩ more
      rw [List.length_append, List.length_singleton] at short
      omega
    rw [merge_cons_of_ne plain, ih, scanFrom_append offset some holds ends]
  | @error offset text rest later some none others ih =>
    refine merge_error some (fun c member => ?_) ih
    obtain ⟨before, after, rfl⟩ := List.append_of_mem member
    have holds := TokenKind.holds_ofFirst c
    have garbage : TokenKind.ofFirst c = .garbage := by
      by_contra plain
      exact none before (c :: after) (by simp) rfl _ [c] ⟨after ++ rest, by simp⟩
        ⟨plain, by simp, holds⟩
    rw [garbage] at holds
    exact holds c List.mem_cons_self

theorem ofFirst_of_accepts {kind : TokenKind} {c : Char} {text rest : List Char}
    (accepts : Accepts kind text) (short : text <+: c :: rest) : TokenKind.ofFirst c = kind := by
  obtain ⟨-, some, holds⟩ := accepts
  obtain ⟨first, more, rfl⟩ := List.exists_cons_of_ne_nil some
  obtain ⟨rfl, -⟩ := List.cons_prefix_cons.mp short
  exact TokenKind.ofFirst_of_holds (TokenKind.holds_cons_iff.mp holds).1

theorem not_accepts_of_garbage {kind : TokenKind} {c : Char} {text rest : List Char}
    (garbage : TokenKind.ofFirst c = .garbage) (short : text <+: c :: rest) :
    ¬Accepts kind text := by
  intro accepts
  exact accepts.1 ((ofFirst_of_accepts accepts short).symm.trans garbage)

theorem length_le_of_accepts {kind other : TokenKind} {text rest more : List Char}
    (some : text ≠ []) (holds : kind.Holds text)
    (ends : ∀ c ∈ rest.head?, kind.continuesOver c = false) (short : more <+: text ++ rest)
    (accepts : Accepts other more) : more.length ≤ text.length := by
  obtain ⟨c, chars, rfl⟩ := List.exists_cons_of_ne_nil some
  have same := ofFirst_of_accepts accepts short
  rw [TokenKind.ofFirst_of_holds (TokenKind.holds_cons_iff.mp holds).1] at same
  subst same
  obtain longer | ⟨others, rfl⟩ := List.prefix_or_prefix_of_prefix short (List.prefix_append _ _)
  · exact longer.length_le
  · cases others with
    | nil => simp
    | cons d others =>
      -- The rule would accept what the token does not go on over.
      obtain ⟨further, rfl, -⟩ :=
        List.cons_prefix_iff.mp ((List.prefix_append_right_inj _).mp short)
      have continues := (TokenKind.holds_cons_iff.mp accepts.2.2).2 d (by simp)
      simp [ends d rfl] at continues

theorem matches_scanFrom (offset : Nat) (chars : List Char) :
    Matches offset chars (scanFrom offset chars) := by
  induction offset, chars using scan_induction with
  | nil offset => simpa [scanFrom] using Matches.done offset
  | cons offset kind text rest some holds ends ih =>
    rw [scanFrom_append offset some holds ends]
    by_cases garbage : kind = .garbage
    · subst garbage
      refine .error some (fun first last left split other more short => ?_) ih
      obtain ⟨c, last, rfl⟩ := List.exists_cons_of_ne_nil left
      have alone : TokenKind.garbage.Holds [c] :=
        List.forall_mem_singleton.mpr (holds c (by simp [split]))
      exact not_accepts_of_garbage (TokenKind.ofFirst_of_holds alone) short
    · exact .rule ⟨garbage, some, holds⟩ (fun _ _ => length_le_of_accepts some holds ends) ih

/-- Whatever the text, there is one way to tile it, and its tokens are that tiling: the texts of the
tokens make up the source, and matching longest first finds it. -/
theorem scan_tiles (source : String) :
    (∀ tokens, Tiles source tokens ↔ tokens = scan source) ∧
      String.join ((scan source).map text) = source ∧
      Matches 0 source.toList (scan source) ∧
      ∀ tokens, Matches 0 source.toList tokens → merge tokens = scan source := by
  refine ⟨fun _ => tiles_iff, ?_, matches_scanFrom 0 source.toList, fun _ => Matches.merge_eq⟩
  rw [scan, (spells_scanFrom 0 source.toList).join, String.ofList_toList]

end Token

end StackMachine
