import HyperStream.Printf
import HyperStream.Routing
set_option autoImplicit false

open Printf

namespace HyperStream.MultiviewCompositor

/-- The range of an int. -/
def IsInt (z : Int) : Prop := -2 ^ 31 ≤ z ∧ z < 2 ^ 31

def argsFormat : List Piece :=
  [.text "video_size=",.dec,.text "x",.dec,.text ":pix_fmt=",.dec,.text ":time_base=",.dec,
    .text "/",.dec,.text ":frame_rate=",.dec,.text "/",.dec,.text ":pixel_aspect=1"]

def argsOf (param : Param) (format : Int) : List Int :=
  [param.width,param.height,format,param.timebase.num,param.timebase.den,param.framerate.num,
    param.framerate.den]

/-- `char args[512]`: what create_filter_graph declares a buffer source with. -/
def args (param : Param) (format : Int) : List Char := snprintf 512 argsFormat (argsOf param format)

/-- `char name[8]`, and `char label[8]` again. -/
def label (idx : Int) : List Char := snprintf 8 [.text "v",.dec] [idx]

structure AVFilterInOut where
  name : List Char
  filterCtx : Option BufferSrc
  padIdx : Int
  deriving DecidableEq, Repr

/-- The new entry goes in front of `outputs`. -/
def makeFilterChain (ctxs : BufferCtxs) (outputs : List AVFilterInOut) (idx : Nat) :
    List AVFilterInOut :=
  ⟨label idx,(bufferCtx ctxs idx).1,0⟩ :: outputs

/-- The open outputs that avfilter_graph_parse_ptr is given, for `n` inputs. -/
def outputs (ctxs : BufferCtxs) (n : Nat) : List AVFilterInOut :=
  (List.range n).foldl (makeFilterChain ctxs) []

theorem IsInt.natAbs_lt {z : Int} (h : IsInt z) : z.natAbs < 10 ^ 10 := by
  obtain ⟨hle,hlt⟩ := h
  omega

/-- No parameters are cut off, and the declaration says exactly what they are. -/
theorem args_read_back (param : Param) (format : Int)
    (h : ∀ z ∈ argsOf param format, IsInt z) :
    (args param format).length < 511 ∧ scan argsFormat (args param format) =
      some (argsOf param format) := by
  have hlen : (Printf.format argsFormat (argsOf param format)).length < 511 := by
    have hle := format_length_le (k := 10) (by decide) argsFormat (argsOf param format)
      fun z hz => (h z hz).natAbs_lt
    have htext : textLength argsFormat + (10 + 1) * arity argsFormat < 511 := by decide
    omega
  have hargs : args param format = Printf.format argsFormat (argsOf param format) :=
    snprintf_of_length_lt (by omega)
  rw [hargs]
  exact ⟨hlen,scan_format (by decide) rfl⟩

theorem args_read_back_sample :
    scan argsFormat (args ⟨⟨60,1⟩,⟨1,60⟩,3840,2160⟩ 117) = some [3840,2160,117,1,60,60,1] :=
  (args_read_back ⟨⟨60,1⟩,⟨1,60⟩,3840,2160⟩ 117 (by simp [argsOf,IsInt])).2

/-- Six digits leave room for the terminator. -/
theorem label_of_lt {n : Nat} (h : n < 10 ^ 6) : label n = 'v' :: Nat.toDigits 10 n := by
  have hdecimal : decimal n = Nat.toDigits 10 n := if_neg (by omega)
  have hlen : (Nat.toDigits 10 n).length ≤ 6 :=
    (Nat.length_toDigits_le_iff (by decide) (by decide)).mpr h
  have hformat : Printf.format [.text "v",.dec] [(n : Int)] = 'v' :: Nat.toDigits 10 n := by
    simp [Printf.format,hdecimal]
  rw [label,snprintf_of_length_lt,hformat]
  rw [hformat,List.length_cons]
  omega

theorem label_inj {n k : Nat} (hn : n < 10 ^ 6) (hk : k < 10 ^ 6) (h : label n = label k) :
    n = k := by
  rw [label_of_lt hn,label_of_lt hk,List.cons.injEq] at h
  have hread := congrArg (fun cs => Nat.ofDigitChars 10 cs 0) h.2
  simpa using hread

/-- The seventh digit is cut off. -/
theorem label_clash : label 1000000 = label 100000 := by decide

def chainEntry (ctxs : BufferCtxs) (idx : Nat) : AVFilterInOut :=
  ⟨label idx,(bufferCtx ctxs idx).1,0⟩

theorem outputs_succ (ctxs : BufferCtxs) (n : Nat) :
    outputs ctxs (n + 1) = chainEntry ctxs n :: outputs ctxs n := by
  simp [outputs,List.range_succ,makeFilterChain,chainEntry]

theorem mem_outputs (ctxs : BufferCtxs) {n k : Nat} (h : k < n) :
    chainEntry ctxs k ∈ outputs ctxs n := by
  induction n with
  | zero => exact absurd h (Nat.not_lt_zero k)
  | succ n ih =>
    rw [outputs_succ]
    rcases Nat.lt_succ_iff_lt_or_eq.mp h with hlt | rfl
    · exact List.mem_cons_of_mem _ (ih hlt)
    · exact List.mem_cons_self

theorem outputs_named (ctxs : BufferCtxs) {n k : Nat} (hn : n ≤ 10 ^ 6) (hk : k < 10 ^ 6) :
    (outputs ctxs n).filter (fun out => out.name = label k) =
      if k < n then [chainEntry ctxs k] else [] := by
  induction n with
  | zero => rfl
  | succ n ih =>
    have hrest := ih (by omega)
    rw [outputs_succ]
    by_cases hnk : n = k
    · subst hnk
      rw [List.filter_cons_of_pos (by simp [chainEntry]),hrest,if_neg (by omega),
        if_pos (by omega)]
    · have hne : ¬ label n = label k := fun h => hnk (label_inj (by omega) hk h)
      rw [List.filter_cons_of_neg (Bool.not_eq_true _ ▸ decide_eq_false hne),hrest]
      by_cases hlt : k < n
      · rw [if_pos hlt,if_pos (by omega)]
      · rw [if_neg hlt,if_neg (by omega)]

/-- Each label of the graph names one open output, and that is the buffer source of its own
index, just as long as the index fits the label; it does for the four views of initialize. -/
theorem labels_own_iff_fit (n : Nat) :
    ((∀ (ctxs : BufferCtxs) (k : Nat), k < n →
      (outputs ctxs n).filter (fun out => out.name = label k) =
        [⟨label k,(bufferCtx ctxs k).1,0⟩]) ↔ n ≤ 10 ^ 6) ∧
    ∀ (param : Param) (created : Nat → Bool) (k : Nat), k < 4 →
      (outputs (initializeBufferCtxs param created) 4).filter (fun out => out.name = label k) =
        [⟨label k,bufferSrc param created k,0⟩] := by
  refine ⟨⟨fun h => ?_,fun hn ctxs k hk => ?_⟩,fun param created k hk => ?_⟩
  · by_contra hlarge
    -- with only the last of two clashing inputs created, its context is found under both names
    let src : BufferSrc := ⟨1000000,0,0,⟨0,1⟩,⟨0,1⟩⟩
    let ctxs : BufferCtxs := AList.insert (1000000 : Int) (some src) ∅
    have hown := h ctxs 100000 (by omega)
    have hmem : chainEntry ctxs 1000000 ∈
        (outputs ctxs n).filter (fun out => out.name = label (100000 : Nat)) :=
      List.mem_filter.mpr ⟨mem_outputs ctxs (by omega),decide_eq_true label_clash⟩
    rw [hown,List.mem_singleton] at hmem
    have hctx := congrArg AVFilterInOut.filterCtx hmem
    exact absurd hctx (by decide)
  · rw [outputs_named ctxs hn (by omega),if_pos hk]
    rfl
  · rw [outputs_named _ (by decide) (by omega),if_pos hk,chainEntry,
      bufferCtx_initializeBufferCtxs param created hk]

end HyperStream.MultiviewCompositor
