/-
  The ends of the lines that are taken.

  A line ends with a newline, or with a carriage return and a newline, and this is its terminator.
  A line of the queue has none, and neither has the last line of a source that does not end with a
  newline.

  * `beforeEnd line`: the characters of a line before its terminator;
  * `chomp_eq_beforeEnd`, `chomp_of_return`: a console takes off the terminator, but where there is
    none it takes off a carriage return;
  * `Console.Delivers text`: the next line is handed out, and recorded, as this text;
  * `serve_pending`: what is left of a line is handed out before anything else, however the console
    is used;
  * `delivers_beforeEnd_iff`: the next line is delivered as the text before its terminator just
    where it does not end in a carriage return.
-/
import WordMachine.Proofs.Conversation

namespace WordMachine

open WordMachine.Action

/-! ## The text before a terminator -/

/-- The characters of a line before its terminator. -/
def beforeEnd (line : String) : String :=
  if ['\r', '\n'] <:+ line.toList then String.ofList line.toList.dropLast.dropLast
  else if ['\n'] <:+ line.toList then String.ofList line.toList.dropLast
  else line

section

variable {line : String} {front : List Char}

theorem return_newline_suffix_iff :
    ['\r', '\n'] <:+ front ++ ['\n'] ↔ front.getLast? = some '\r' := by
  rw [← List.singleton_suffix_iff_getLast?_eq_some]
  have hparts : ['\r'] ++ ['\n'] <:+ front ++ ['\n'] ↔ ['\r'] <:+ front ∧ ['\n'] = ['\n'] :=
    List.suffix_append_inj_of_length_eq rfl
  exact hparts.trans (and_iff_left rfl)

theorem beforeEnd_of_newline (h : line.toList = front ++ ['\n']) :
    (beforeEnd line).toList = dropTrailing '\r' front := by
  have hnewline : ['\n'] <:+ front ++ ['\n'] := List.suffix_append front _
  rw [beforeEnd, h, if_pos hnewline, List.dropLast_concat, dropTrailing]
  by_cases hreturn : front.getLast? = some '\r'
  · rw [if_pos (return_newline_suffix_iff.mpr hreturn), if_pos hreturn, String.toList_ofList]
  · rw [if_neg (mt return_newline_suffix_iff.mp hreturn), if_neg hreturn, String.toList_ofList]

/-- Without a newline at its end, a line has no terminator. -/
theorem beforeEnd_of_not_newline (h : line.toList.getLast? ≠ some '\n') : beforeEnd line = line := by
  have hnewline : ¬ ['\n'] <:+ line.toList := mt List.singleton_suffix_iff_getLast?_eq_some.mp h
  have hboth : ¬ ['\r', '\n'] <:+ line.toList :=
    fun hsuffix => hnewline ((List.suffix_cons '\r' _).trans hsuffix)
  rw [beforeEnd, if_neg hboth, if_neg hnewline]

/-- A line that does not end in a carriage return loses its terminator. -/
theorem chomp_eq_beforeEnd (h : line.toList.getLast? ≠ some '\r') : chomp line = beforeEnd line := by
  rw [← String.toList_inj, toList_chomp]
  by_cases hnewline : line.toList.getLast? = some '\n'
  · obtain ⟨front, hline⟩ := List.getLast?_eq_some_iff.mp hnewline
    rw [beforeEnd_of_newline hline, hline, dropTrailing_append_self]
  · have hkept : dropTrailing '\n' line.toList = line.toList := if_neg hnewline
    rw [beforeEnd_of_not_newline hnewline, hkept]
    exact if_neg h

/-- Any other line has no terminator, but loses the carriage return. -/
theorem chomp_of_return (h : line.toList = front ++ ['\r']) :
    chomp line = String.ofList front ∧ (beforeEnd line).toList = front ++ ['\r'] := by
  have hnewline : line.toList.getLast? ≠ some '\n' := by
    rw [h, List.getLast?_concat]
    decide
  have hkept : dropTrailing '\n' line.toList = line.toList := if_neg hnewline
  constructor
  · rw [← String.toList_inj, toList_chomp, hkept, h, dropTrailing_append_self, String.toList_ofList]
  · rw [beforeEnd_of_not_newline hnewline, h]

end

namespace Console

variable {console : Console} {line text : String} {front : List Char}

/-! ## What is handed out -/

/-- What the reads come to that hand out a text and a newline. -/
def codesOf (text : String) : List (Except Fault Word) := (text.toList ++ ['\n']).map codeOf

/-- The next line is handed out as this text and a newline, and recorded as this text.  However the
    console is used from the read on that takes the line, what was handed out and what is left of
    the line make up the codes of the text, until all of them were handed out. -/
structure Delivers (console : Console) (text : String) : Prop where
  codes : ∀ uses, (console.serve (.read :: uses)).1.length ≤ (codesOf text).length →
    (console.serve (.read :: uses)).1 ++ (console.serve (.read :: uses)).2.pending.map codeOf =
      codesOf text
  recorded : (console.use .read).transcript = console.transcript.map (Transcript.logInput text)

theorem pending_writeChar (code : Word) (console : Console) :
    (writeChar code console).state.pending = console.pending :=
  keeps_writeChar (P := fun c : Console => c.pending = console.pending) (fun _ _ h => h)
    (fun _ _ h => h) code console rfl

/-- **What is left of a line is handed out before anything else**, however the console is used. -/
theorem serve_pending (uses : List Use) (console : Console)
    (h : (console.serve uses).1.length ≤ console.pending.length) :
    (console.serve uses).1 ++ (console.serve uses).2.pending.map codeOf =
      console.pending.map codeOf := by
  induction uses generalizing console with
  | nil => rfl
  | cons use uses ih =>
    cases use with
    | read =>
      rcases hp : console.pending with _ | ⟨c, rest⟩
      · rw [hp] at h
        exact absurd h (Nat.not_succ_le_zero _)
      · rw [serve, readChar_of_cons hp, hp] at h
        have hrest := ih { console with pending := rest } (Nat.le_of_succ_le_succ h)
        rw [serve, readChar_of_cons hp, List.map_cons]
        exact congrArg (codeOf c :: ·) hrest
    | write code =>
      have hrest := ih (writeChar code console).state
      rw [pending_writeChar] at hrest
      exact hrest h
    | flush =>
      rw [serve, flush_apply] at h ⊢
      exact ih console.flushed h
    | queueLines lines => exact ih (console.queueLines lines) h
    | record => exact ih console.record h

/-- The read that takes a line hands out its first character, and leaves the others. -/
theorem readChar_takes (hp : console.pending = []) (hl : console.nextLine? = .ok line) :
    ∃ c rest, (chomp line).toList ++ ['\n'] = c :: rest ∧
      (readChar console).outcome = codeOf c ∧ (readChar console).state.pending = rest := by
  obtain ⟨hout, hpending⟩ := refill_of_ok hl
  obtain ⟨c, rest, hcons⟩ :=
    List.exists_cons_of_ne_nil (List.concat_ne_nil '\n' (chomp line).toList)
  rw [hp, List.nil_append, hcons] at hpending
  refine ⟨c, rest, hcons, ?_⟩
  rcases hrefill : refill console with ⟨fault | ⟨⟩, console', log⟩
  · rw [hrefill] at hout
    cases hout
  · rw [hrefill] at hpending
    rw [readChar_of_nil hp, bind_ok hrefill, takeCode_of_cons hpending]
    exact ⟨rfl, rfl⟩

/-- The next line is delivered as what is left of it once its end was taken off. -/
theorem delivers_chomp (hp : console.pending = []) (hl : console.nextLine? = .ok line) :
    console.Delivers (chomp line) where
  codes uses h := by
    obtain ⟨c, rest, hcons, hout, hpending⟩ := readChar_takes hp hl
    rw [codesOf, hcons, List.map_cons, serve, List.length_cons, List.length_cons,
      List.length_map, ← hpending] at h
    have hrest := serve_pending uses (readChar console).state (Nat.le_of_succ_le_succ h)
    rw [hpending] at hrest
    rw [codesOf, hcons, List.map_cons, serve, hout, List.cons_append, hrest]
  recorded := by
    rw [use, transcript_readChar, said, hp, hl]
    rfl

/-! ## What is delivered -/

theorem length_serve_replicate (n : Nat) (console : Console) :
    (console.serve (List.replicate n .read)).1.length = n := by
  induction n generalizing console with
  | zero => rfl
  | succ n ih => exact congrArg (· + 1) (ih (readChar console).state)

theorem codesOf_injective {text' : String} (h : codesOf text = codesOf text') : text = text' := by
  have hcode : Function.Injective codeOf := by
    intro c c' hc
    have htaken := codeTaken?_codeOf c
    rw [hc, codeTaken?_codeOf] at htaken
    exact (Char.toNat_inj.mp (Option.some.inj htaken)).symm
  have hchars := List.map_injective_iff.mpr hcode h
  exact String.toList_inj.mp (List.append_cancel_right hchars)

/-- A line is delivered as one text only. -/
theorem Delivers.unique {text' : String} (h : console.Delivers text) (h' : console.Delivers text') :
    text = text' := by
  -- Of two texts the shorter one is handed out whole, and then there must be nothing left.
  wlog hle : (codesOf text).length ≤ (codesOf text').length generalizing text text'
  · exact (this h' h (Nat.le_of_not_le hle)).symm
  have hlen : (codesOf text).length = text.toList.length + 1 := by
    rw [codesOf, List.length_map, List.length_append, List.length_singleton]
  have hreads : (console.serve (.read :: List.replicate text.toList.length .read)).1.length =
      (codesOf text).length := by
    rw [hlen]
    exact length_serve_replicate (text.toList.length + 1) console
  have hcodes := h.codes _ (Nat.le_of_eq hreads)
  have hcodes' := h'.codes _ (hreads ▸ hle)
  exact codesOf_injective (hcodes.symm.trans hcodes')

theorem not_delivers_of_return (hp : console.pending = []) (hl : console.nextLine? = .ok line)
    (hreturn : line.toList = front ++ ['\r']) : ¬ console.Delivers (beforeEnd line) := by
  obtain ⟨hchomp, hbefore⟩ := chomp_of_return hreturn
  intro h
  have heq := congrArg String.toList (h.unique (delivers_chomp hp hl))
  rw [hbefore, hchomp, String.toList_ofList] at heq
  simp at heq

/-- **Only a terminator is taken off a line, but for a carriage return at its end.**  Just where a
    line does not end in a carriage return, it is delivered as the text before its terminator:
    handed out as the characters of that text and a newline, and recorded as that text.  A carriage
    return at the end of a line is no terminator, but the line is delivered without it. -/
theorem delivers_beforeEnd_iff (hp : console.pending = []) (hl : console.nextLine? = .ok line) :
    (console.Delivers (beforeEnd line) ↔ line.toList.getLast? ≠ some '\r') ∧
      ∀ front, line.toList = front ++ ['\r'] →
        (beforeEnd line).toList = front ++ ['\r'] ∧ console.Delivers (String.ofList front) := by
  have hdelivers := delivers_chomp hp hl
  refine ⟨⟨fun h hlast => ?_, fun hlast => ?_⟩, fun front hreturn => ?_⟩
  · obtain ⟨front, hreturn⟩ := List.getLast?_eq_some_iff.mp hlast
    exact not_delivers_of_return hp hl hreturn h
  · rw [← chomp_eq_beforeEnd hlast]
    exact hdelivers
  · obtain ⟨hchomp, hbefore⟩ := chomp_of_return hreturn
    exact ⟨hbefore, hchomp ▸ hdelivers⟩

/-- A queued line that ends in a carriage return, in front of one that the source ends with a
    carriage return and a newline. -/
theorem delivers_beforeEnd_iff_queued :
    let console := (new (.ofText "a\r\n") .unlimited).queueLines ["b\r"]
    console.pending = [] ∧ console.nextLine? = .ok "b\r" ∧ beforeEnd "b\r" = "b\r" ∧
      ¬ console.Delivers "b\r" ∧ console.Delivers "b" := by
  intro console
  have hl : console.nextLine? = .ok "b\r" := rfl
  have hreturn : ("b\r" : String).toList = ['b'] ++ ['\r'] := by decide
  have hbefore : beforeEnd "b\r" = "b\r" := by decide
  obtain ⟨hiff, hwithout⟩ := delivers_beforeEnd_iff rfl hl
  rw [hbefore] at hiff
  refine ⟨rfl, hl, hbefore, fun h => hiff.mp h (by decide), ?_⟩
  exact (hwithout ['b'] hreturn).2

/-- So a line at the end of a source is not always delivered as the text before its terminator. -/
theorem not_delivers_beforeEnd_return :
    ¬ ∀ (console : Console) (line : String), console.pending = [] →
      console.nextLine? = .ok line → console.Delivers (beforeEnd line) := by
  intro h
  have hl : (new (.ofText "a\r") .unlimited).nextLine? = .ok "a\r" := by decide +kernel
  have hreturn : ("a\r" : String).toList = ['a'] ++ ['\r'] := by decide
  exact not_delivers_of_return rfl hl hreturn (h _ _ rfl hl)

end Console

end WordMachine
