import StackMachine.Assembly.Token
import StackMachine.Proofs.Assembly.Tiling

set_option autoImplicit false

namespace StackMachine

namespace Span

theorem narrow?_of_lt {span : Span} (forward : span.start ≤ span.stop)
    (small : span.stop < UInt32.size) : span.narrow? = some span := by
  have start : span.start % UInt32.size = span.start := Nat.mod_eq_of_lt (by omega)
  simp [narrow?, start, Nat.mod_eq_of_lt small, forward]

theorem eq_of_narrow? {span narrowed : Span} (fits : span.narrow? = some narrowed) :
    narrowed.start = span.start % UInt32.size ∧ narrowed.stop = span.stop % UInt32.size ∧
      narrowed.start ≤ narrowed.stop := by
  simp only [narrow?, Option.ite_none_right_eq_some, Option.some.injEq] at fits
  obtain ⟨forward, rfl⟩ := fits
  exact ⟨rfl, rfl, forward⟩

theorem stop_lt_of_narrow? {span narrowed : Span} (fits : span.narrow? = some narrowed) :
    narrowed.stop < UInt32.size := by
  rw [(eq_of_narrow? fits).2.1]
  exact Nat.mod_lt _ (by decide)

end Span

namespace Token

theorem matchFrom_of_garbage {c : Char} (garbage : TokenKind.ofFirst c = .garbage) (offset : Nat)
    (rest : List Char) :
    matchFrom offset (c :: rest) =
      place offset .garbage [c] :: matchFrom (offset + byteLength [c]) rest := by
  have none (d : Char) : TokenKind.garbage.matchesOver d = false := rfl
  have stops : rest.takeWhile TokenKind.garbage.matchesOver = [] ∧
      rest.dropWhile TokenKind.garbage.matchesOver = rest := by
    cases rest with
    | nil => exact ⟨rfl, rfl⟩
    | cons d rest => simp [none d]
  rw [matchFrom, garbage, stops.1, stops.2]
  rfl

theorem matchFrom_append {kind : TokenKind} {text rest : List Char} (offset : Nat)
    (accepts : Accepts kind text) (ends : ∀ c ∈ rest.head?, kind.continuesOver c = false) :
    matchFrom offset (text ++ rest) =
      place offset kind text :: matchFrom (offset + byteLength text) rest := by
  obtain ⟨plain, some, holds⟩ := accepts
  obtain ⟨first, others, rfl⟩ := List.exists_cons_of_ne_nil some
  obtain ⟨begins, continues⟩ := TokenKind.holds_cons_iff.mp holds
  have same : kind.matchesOver = kind.continuesOver := by
    funext c
    simp [TokenKind.matchesOver, plain]
  have stops : rest.takeWhile kind.continuesOver = [] ∧
      rest.dropWhile kind.continuesOver = rest := by
    cases rest with
    | nil => exact ⟨rfl, rfl⟩
    | cons c rest => simp [ends c rfl]
  rw [List.cons_append, matchFrom, TokenKind.ofFirst_of_holds begins, same,
    List.takeWhile_append_of_pos continues, List.dropWhile_append_of_pos continues, stops.1,
    stops.2, List.append_nil]
  rfl

theorem matches_matchFrom (offset : Nat) (chars : List Char) :
    Matches offset chars (matchFrom offset chars) := by
  induction length : chars.length using Nat.strong_induction_on generalizing offset chars with
  | _ n ih =>
    cases chars with
    | nil => simpa [matchFrom] using Matches.done offset
    | cons first rest =>
      obtain ⟨text, others, rfl, holds, ends⟩ := exists_first first rest
      by_cases garbage : TokenKind.ofFirst first = .garbage
      · rw [matchFrom_of_garbage garbage]
        refine .error (List.cons_ne_nil first []) (fun before last some split kind more short => ?_)
          (ih _ (by simp [← length]) _ _ rfl)
        -- One character leaves nothing before it.
        obtain ⟨rfl, rfl⟩ : before = [] ∧ last = [first] := by
          cases before with
          | nil => exact ⟨rfl, split.symm⟩
          | cons c before =>
            have none := (List.append_eq_nil_iff.mp (List.cons_eq_cons.mp split).2.symm).2
            exact absurd none some
        exact not_accepts_of_garbage garbage short
      · have accepts : Accepts (TokenKind.ofFirst first) (first :: text) :=
          ⟨garbage, List.cons_ne_nil _ _, holds⟩
        rw [← List.cons_append, matchFrom_append offset accepts ends]
        refine .rule accepts (fun _ _ => length_le_of_accepts (List.cons_ne_nil _ _) holds ends)
          (ih _ ?_ _ _ rfl)
        simp only [← length, List.length_cons, List.length_append]
        omega

theorem merge_matchFrom (offset : Nat) (chars : List Char) :
    merge (matchFrom offset chars) = scanFrom offset chars :=
  (matches_matchFrom offset chars).merge_eq

theorem Matches.within {offset : Nat} {chars : List Char} {tokens : List Token}
    (matched : Matches offset chars tokens) :
    ∀ token ∈ tokens, token.span.start ≤ token.span.stop ∧
      token.span.stop ≤ offset + byteLength chars := by
  induction matched with
  | done => simp
  | rule _ _ _ ih | error _ _ _ ih =>
    rw [List.forall_mem_cons, byteLength_append]
    refine ⟨by simp [place], fun token member => ?_⟩
    have later := ih token member
    omega

/-- A token that is kept, and the one that would be if offsets did not wrap. -/
structure Narrows (token : Token) (kept : BareToken) : Prop where
  kind : kept.kind = token.kind
  bounded : kept.span.stop < UInt32.size
  -- Joined errors may reach around what lies between their ends.
  narrower : token.kind ≠ .garbage →
    kept.span.stop - kept.span.start ≤ token.span.stop - token.span.start
  exact : token.span.stop < UInt32.size → kept.span = token.span

theorem narrows_of_narrow? {token : Token} {span : Span}
    (forward : token.span.start ≤ token.span.stop) (fits : token.span.narrow? = some span) :
    Narrows token ⟨token.kind, span⟩ := by
  refine ⟨rfl, Span.stop_lt_of_narrow? fits, fun _ => ?_, fun small => ?_⟩
  · obtain ⟨start, stop, narrow⟩ := Span.eq_of_narrow? fits
    have quotient : token.span.start / UInt32.size ≤ token.span.stop / UInt32.size :=
      Nat.div_le_div_right forward
    have below := Nat.div_add_mod token.span.start UInt32.size
    have above := Nat.div_add_mod token.span.stop UInt32.size
    have blocks := Nat.mul_le_mul_left UInt32.size quotient
    simp only [start, stop] at narrow ⊢
    omega
  · rw [Span.narrow?_of_lt forward small] at fits
    exact (Option.some.inj fits).symm

theorem Narrows.join {left right : Token} {first second : BareToken}
    (garbage : left.kind = .garbage) (here : Narrows left first) (later : Narrows right second) :
    Narrows (left.join right) ⟨first.kind, first.span.cover second.span⟩ := by
  refine ⟨here.kind, ?_, fun other => absurd garbage other, fun small => ?_⟩
  · exact Nat.max_lt.mpr ⟨here.bounded, later.bounded⟩
  · obtain ⟨small, small'⟩ := Nat.max_lt.mp small
    rw [here.exact small, later.exact small']
    rfl

theorem narrows_keepFrom? {last : Token} {kept : BareToken} {found : List Token}
    {tokens : List BareToken} (narrows : Narrows last kept)
    (forward : ∀ token ∈ found, token.span.start ≤ token.span.stop)
    (keeps : BareToken.keepFrom? kept found = some tokens) :
    List.Forall₂ Narrows (mergeFrom last found) tokens := by
  induction found generalizing last kept tokens with
  | nil =>
    cases keeps
    exact .cons narrows .nil
  | cons token rest ih =>
    obtain ⟨here, others⟩ := List.forall_mem_cons.mp forward
    simp only [BareToken.keepFrom?, Option.bind_eq_bind, Option.bind_eq_some_iff] at keeps
    obtain ⟨span, fits, keeps⟩ := keeps
    have next := narrows_of_narrow? here fits
    rw [mergeFrom, ← narrows.kind]
    split at keeps
    next both =>
      rw [if_pos both]
      exact ih (narrows.join (narrows.kind.symm.trans both.2) next) others keeps
    next apart =>
      rw [if_neg apart]
      obtain ⟨later, kept, rfl⟩ := Option.map_eq_some_iff.mp keeps
      exact .cons narrows (ih next others kept)

theorem narrows_keep? {found : List Token} {tokens : List BareToken}
    (forward : ∀ token ∈ found, token.span.start ≤ token.span.stop)
    (keeps : BareToken.keep? found = some tokens) :
    List.Forall₂ Narrows (merge found) tokens := by
  cases found with
  | nil =>
    cases keeps
    exact .nil
  | cons first rest =>
    obtain ⟨here, others⟩ := List.forall_mem_cons.mp forward
    obtain ⟨span, fits, keeps⟩ := Option.bind_eq_some_iff.mp keeps
    exact narrows_keepFrom? (narrows_of_narrow? here fits) others keeps

theorem exists_keepFrom? {found : List Token}
    (fits : ∀ token ∈ found, token.span.narrow? = some token.span) (last : BareToken) :
    ∃ tokens, BareToken.keepFrom? last found = some tokens := by
  induction found generalizing last with
  | nil => exact ⟨_, rfl⟩
  | cons token rest ih =>
    obtain ⟨here, others⟩ := List.forall_mem_cons.mp fits
    simp only [BareToken.keepFrom?, here, Option.bind_eq_bind, Option.bind_some]
    split
    next => exact ih others _
    next =>
      obtain ⟨tokens, keeps⟩ := ih others ⟨token.kind, token.span⟩
      exact ⟨last :: tokens, by rw [keeps]; rfl⟩

theorem exists_keep? {found : List Token}
    (fits : ∀ token ∈ found, token.span.narrow? = some token.span) :
    ∃ tokens, BareToken.keep? found = some tokens := by
  cases found with
  | nil => exact ⟨[], rfl⟩
  | cons first rest =>
    obtain ⟨here, others⟩ := List.forall_mem_cons.mp fits
    obtain ⟨tokens, keeps⟩ := exists_keepFrom? others ⟨first.kind, first.span⟩
    exact ⟨tokens, by simp [BareToken.keep?, here, keeps]⟩

theorem eq_map_bare {tokens : List Token} {kept : List BareToken}
    (narrows : List.Forall₂ Narrows tokens kept)
    (small : ∀ token ∈ tokens, token.span.stop < UInt32.size) : kept = tokens.map bare := by
  induction narrows with
  | nil => rfl
  | @cons token bare _ _ here _ ih =>
    obtain ⟨fits, others⟩ := List.forall_mem_cons.mp small
    have same : bare = token.bare := by
      rw [Token.bare, ← here.kind, ← here.exact fits]
    rw [List.map_cons, ← ih others, same]

theorem Covers.exists_stop {start stop : Nat} {tokens : List Token}
    (covers : Covers start tokens stop) :
    stop = start ∨ ∃ token ∈ tokens, token.span.stop = stop := by
  induction covers with
  | nil => exact .inl rfl
  | cons token _ ih =>
    obtain same | ⟨last, member, ends⟩ := ih
    · exact .inr ⟨token, List.mem_cons_self, same.symm⟩
    · exact .inr ⟨last, List.mem_cons_of_mem token member, ends⟩

end Token

namespace BareToken

variable {source : String}

theorem narrows_of_lex? {tokens : List BareToken} (lexed : lex? source = some tokens) :
    List.Forall₂ Token.Narrows (Token.scan source) tokens := by
  have narrows := Token.narrows_keep?
    (fun token member => ((Token.matches_matchFrom 0 source.toList).within token member).1) lexed
  rwa [Token.merge_matchFrom] at narrows

/-- The lexer keeps every token where it stands just if no offset in the source wraps. -/
theorem lex?_eq_map_bare_iff :
    lex? source = some ((Token.scan source).map Token.bare) ↔
      source.utf8ByteSize < UInt32.size := by
  have tiles := Token.tiles_iff.mpr (rfl : Token.scan source = _)
  constructor
  · intro lexed
    have narrows := narrows_of_lex? lexed
    rw [List.forall₂_map_right_iff, List.forall₂_same] at narrows
    obtain none | ⟨token, member, ends⟩ := tiles.covers.exists_stop
    · rw [none]
      decide
    · rw [← ends]
      exact (narrows token member).bounded
  · intro small
    have within := (Token.matches_matchFrom 0 source.toList).within
    rw [byteLength_toList, Nat.zero_add] at within
    obtain ⟨tokens, kept⟩ := Token.exists_keep? fun token member =>
      Span.narrow?_of_lt (within token member).1
        (Nat.lt_of_le_of_lt (within token member).2 small)
    have lexed : lex? source = some tokens := kept
    have exact := Token.eq_map_bare (narrows_of_lex? lexed) fun token member => ?_
    · rw [lexed, exact]
    · exact Nat.lt_of_le_of_lt
        ((Token.matches_scanFrom 0 source.toList).within token member).2
        (by rwa [Nat.zero_add, byteLength_toList])

theorem text?_of_mem_scan {token : Token} (member : token ∈ Token.scan source) :
    token.bare.text? source = some token.text := Token.text?_of_mem_scan member

end BareToken

end StackMachine
