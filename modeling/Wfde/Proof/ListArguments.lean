import Wfde.Proof.HiddenFiles
import Wfde.Lib.Segments

/-!
# The arguments of a listing command

`ParseListArgs` moves its iterator by two, on over spaces and back by one. It stays within the
argument, and what it makes of one is what stands there: options, and then a path.
-/

namespace Wfde

open Segments

namespace ParseListArgs

variable {param : Bytes} {p : Nat}

theorem skipSpaces_eq {fuel : Nat} (hp : p ≤ param.length) (hfuel : param.length - p < fuel) :
    skipSpaces param fuel p
      = some (p + ((param.drop p).takeWhile (· == space)).length) := by
  induction fuel generalizing p with
  | zero => omega
  | succ fuel ih =>
      by_cases hend : p = param.length
      · simp [skipSpaces, hend]
      · have hlt : p < param.length := by omega
        have hdrop : param.drop p = param[p] :: param.drop (p + 1) := List.drop_eq_getElem_cons hlt
        rw [skipSpaces, if_neg hend, List.getElem?_eq_getElem hlt, hdrop]
        by_cases hspace : param[p] = space
        · simp only [hspace, if_pos, beq_self_eq_true, List.takeWhile_cons_of_pos, List.length_cons]
          rw [ih (by omega) (by omega)]
          congr 1
          omega
        · simp [hspace]

/-- Skipping is over at the first character that is no space. -/
theorem parseListLoop_skipping (args : ListArgs) (text : Bytes) :
    parseListLoop args true text = parseListLoop args false (text.dropWhile (· == space)) := by
  induction text with
  | nil => rfl
  | cons c rest ih =>
      by_cases hspace : c = space
      · subst hspace
        rw [List.dropWhile_cons_of_pos (by simp), ← ih]
        cases rest <;> simp [parseListLoop]
      · rw [List.dropWhile_cons_of_neg (by simpa using hspace)]
        cases rest <;> simp [parseListLoop, hspace]

/-- The state behind the options seen so far. -/
def noted (state : FtpState) (args : ListArgs) : FtpState :=
  { state with listHiddenFiles := state.listHiddenFiles || args.listHiddenFiles }

def result (state : FtpState) (args : ListArgs) : Bytes × FtpState × ListFormat :=
  (args.vpath, noted state args, args.format)

theorem scan_option (hlt : p + 1 < param.length) (hdash : param[p] = 45) (fuel : Nat)
    (state : FtpState) (format : ListFormat) :
    scan param (fuel + 1) p state format
      = let approved (state : FtpState) (format : ListFormat) :=
          (skipSpaces param (param.length + 1) (p + 2)).bind fun q =>
            scan param fuel (q - 1 + 1) state format
        if param[p + 1] = 49 then approved state .short
        else if param[p + 1] = 108 then approved state .long
        else if param[p + 1] = 97 then approved { state with listHiddenFiles := true } format
        else some (param.drop p, state, format) := by
  have hend : p ≠ param.length := by omega
  have hlast : p + 1 ≠ param.length := by omega
  have hp : param[p]? = some 45 := by rw [List.getElem?_eq_getElem (by omega), hdash]
  have hoption : param[p + 1]? = some param[p + 1] := List.getElem?_eq_getElem hlt
  simp only [scan, hend, hlast, hp, hoption, if_true, if_false]

theorem parseListLoop_option (args : ListArgs) (option : UInt8) (more : Bytes) :
    parseListLoop args false (45 :: option :: more)
      = if option = 49 then parseListLoop { args with format := .short } true more
        else if option = 108 then parseListLoop { args with format := .long } true more
        else if option = 97 then parseListLoop { args with listHiddenFiles := true } true more
        else { args with vpath := 45 :: option :: more } := by
  simp [parseListLoop]

theorem noted_hidden (state : FtpState) (args : ListArgs) :
    noted state { args with listHiddenFiles := true }
      = { noted state args with listHiddenFiles := true } := by
  simp [noted]

theorem skipSpaces_lands (hp : p ≤ param.length) :
    ∃ q, skipSpaces param (param.length + 1) p = some q ∧ p ≤ q ∧ q ≤ param.length
      ∧ param.drop q = (param.drop p).dropWhile (· == space) := by
  have hle : ((param.drop p).takeWhile (· == space)).length ≤ (param.drop p).length :=
    (List.takeWhile_prefix _).length_le
  rw [List.length_drop] at hle
  refine ⟨_, skipSpaces_eq hp (by omega), by omega, by omega, ?_⟩
  rw [← List.drop_drop, drop_length_takeWhile]

/-- The scan stays within the argument and makes of it what the loop over its characters does. -/
theorem scan_eq {fuel : Nat} {args : ListArgs} (state : FtpState) (hargs : args.vpath = [])
    (hp : p ≤ param.length) (hfuel : param.length - p < fuel) :
    scan param fuel p (noted state args) args.format
      = some (result state (parseListLoop args false (param.drop p))) := by
  induction fuel generalizing p args with
  | zero => omega
  | succ fuel ih =>
      by_cases hend : p = param.length
      · simp [scan, hend, parseListLoop, result, hargs]
      have hlt : p < param.length := by omega
      have hdrop : param.drop p = param[p] :: param.drop (p + 1) := List.drop_eq_getElem_cons hlt
      by_cases hdash : param[p] = 45
      · by_cases hlast : p + 1 = param.length
        · -- A single dash at the end is passed over.
          have hrest : param.drop p = [45] := by
            rw [hdrop, hdash, hlast, List.drop_length]
          have hnext := ih hargs (show p + 1 ≤ param.length from hlt) (by omega)
          rw [hlast, List.drop_length] at hnext
          simpa [scan, hend, List.getElem?_eq_getElem hlt, hdash, hlast, hrest, parseListLoop]
            using hnext
        · have hlt' : p + 1 < param.length := by omega
          have hdrop' : param.drop (p + 1) = param[p + 1] :: param.drop (p + 2) :=
            List.drop_eq_getElem_cons hlt'
          obtain ⟨q, hskip, hpq, hq, hrest⟩ :=
            skipSpaces_lands (show p + 2 ≤ param.length from hlt')
          -- The step back from `q` is made good by the next step of the loop.
          have happroved : ∀ args' : ListArgs, args'.vpath = [] →
              ((skipSpaces param (param.length + 1) (p + 2)).bind fun q =>
                  scan param fuel (q - 1 + 1) (noted state args') args'.format)
                = some (result state (parseListLoop args' true (param.drop (p + 2)))) := by
            intro args' hargs'
            rw [hskip, Option.bind_some, Nat.sub_add_cancel (by omega), parseListLoop_skipping,
              ← hrest]
            exact ih hargs' hq (by omega)
          rw [scan_option hlt' hdash, hdrop, hdrop', hdash, parseListLoop_option]
          split_ifs
          · exact happroved { args with format := .short } hargs
          · exact happroved { args with format := .long } hargs
          · exact noted_hidden state args ▸ happroved { args with listHiddenFiles := true } hargs
          · rfl
      · have hloop : parseListLoop args false (param.drop p)
            = { args with vpath := param.drop p } := by
          rw [hdrop]
          cases param.drop (p + 1) <;> simp [parseListLoop, hdash]
        simp [scan, hend, List.getElem?_eq_getElem hlt, hdash, hloop, result, noted]

theorem scan_whole (param : Bytes) (state : FtpState) (format : ListFormat) :
    scan param (param.length + 1) 0 state format
      = some (result state (parseListLoop { format } false param)) := by
  have hargs : ({ format } : ListArgs).vpath = [] := rfl
  have hscan := scan_eq state hargs (Nat.zero_le param.length) (Nat.lt_succ_self _)
  rwa [List.drop_zero, noted, Bool.or_false] at hscan

theorem parseListArgs_scan (param : Bytes) (ftp : FtpSession) :
    ∃ args after, (parseListArgs param).run ftp = .ok args { ftp with state := after }
      ∧ scan param (param.length + 1) 0 ftp.state .long = some (args.vpath, after, args.format) :=
  ⟨_, _, rfl, scan_whole param ftp.state .long⟩

end ParseListArgs

inductive ListOption where
  | one
  | el
  | all
  deriving DecidableEq

namespace ListOption

def letter : ListOption → UInt8
  | one => 49
  | el => 108
  | all => 97

def format? : ListOption → Option ListFormat
  | one => some .short
  | el => some .long
  | all => none

/-- The options of an argument, each with the number of spaces behind it. -/
def texts (options : List (ListOption × Nat)) : Bytes :=
  options.flatMap fun (option, spaces) => 45 :: option.letter :: List.replicate spaces space

/-- The format the last of `-1` and `-l` asks for. -/
def lastFormat (initial : ListFormat) (options : List (ListOption × Nat)) : ListFormat :=
  (options.filterMap fun option => option.1.format?).getLast?.getD initial

theorem lastFormat_cons (initial : ListFormat) (option : ListOption × Nat)
    (options : List (ListOption × Nat)) :
    lastFormat initial (option :: options) = lastFormat (option.1.format?.getD initial) options := by
  rw [lastFormat, List.filterMap_cons]
  cases option.1.format? with
  | none => rfl
  | some format => rw [List.getLast?_cons]; rfl

def asksForAll (options : List (ListOption × Nat)) : Bool :=
  options.any fun option => option.1 = .all

end ListOption

namespace ParseListArgs

open ListOption

/-- A path that starts neither with a dash nor with a space, possibly empty. -/
def StartsAsPath (path : Bytes) : Prop := path.head? ≠ some 45 ∧ path.head? ≠ some space

instance (path : Bytes) : Decidable (StartsAsPath path) := inferInstanceAs (Decidable (_ ∧ _))

def applied (args : ListArgs) : ListOption → ListArgs
  | one => { args with format := .short }
  | el => { args with format := .long }
  | all => { args with listHiddenFiles := true }

theorem applied_format (args : ListArgs) (option : ListOption) :
    (applied args option).format = option.format?.getD args.format := by
  cases option <;> rfl

theorem applied_listHiddenFiles (args : ListArgs) (option : ListOption) :
    (applied args option).listHiddenFiles = (args.listHiddenFiles || decide (option = .all)) := by
  cases option <;> simp [applied]

theorem parseListLoop_spaces (args : ListArgs) (spaces : Nat) (text : Bytes) :
    parseListLoop args true (List.replicate spaces space ++ text) = parseListLoop args true text := by
  rw [parseListLoop_skipping, parseListLoop_skipping args text,
    List.dropWhile_append_of_pos (by simp)]

theorem parseListLoop_text (args : ListArgs) (skipping : Bool) (option : ListOption) (spaces : Nat)
    (text : Bytes) :
    parseListLoop args skipping (45 :: option.letter :: List.replicate spaces space ++ text)
      = parseListLoop (applied args option) true text := by
  rw [← parseListLoop_spaces (applied args option) spaces text]
  cases option <;> simp [parseListLoop, letter, applied, space]

theorem parseListLoop_path {path : Bytes} (hpath : StartsAsPath path) {args : ListArgs}
    (hargs : args.vpath = []) (skipping : Bool) :
    parseListLoop args skipping path = { args with vpath := path } := by
  cases path with
  | nil =>
      obtain ⟨vpath, format, hidden⟩ := args
      obtain rfl : vpath = [] := hargs
      rfl
  | cons c rest =>
      have hdash : c ≠ 45 := fun h => hpath.1 (congrArg some h)
      have hspace : c ≠ space := fun h => hpath.2 (congrArg some h)
      cases rest <;> simp [parseListLoop, hdash, hspace]

theorem parseListLoop_options {path : Bytes} (hpath : StartsAsPath path) {args : ListArgs}
    (hargs : args.vpath = []) (skipping : Bool) (options : List (ListOption × Nat)) :
    parseListLoop args skipping (texts options ++ path)
      = { vpath := path, format := lastFormat args.format options,
          listHiddenFiles := args.listHiddenFiles || asksForAll options } := by
  induction options generalizing args skipping with
  | nil => simp [texts, parseListLoop_path hpath hargs, lastFormat, asksForAll]
  | cons option options ih =>
      have htexts : texts (option :: options) ++ path
          = 45 :: option.1.letter :: List.replicate option.2 space ++ (texts options ++ path) := by
        simp [texts]
      have happlied : (applied args option.1).vpath = [] := by
        cases option.1 <;> exact hargs
      rw [htexts, parseListLoop_text, ih happlied, applied_format, ← lastFormat_cons,
        applied_listHiddenFiles, Bool.or_assoc]
      rfl

/-- **`ParseListArgs` is through with every argument without reading behind its end, and options with
a path behind them are taken as they stand.** An option needs no space behind it. -/
theorem parseListArgs_spec (param : Bytes) (options : List (ListOption × Nat)) (path : Bytes)
    (hpath : StartsAsPath path) (state : FtpState) (format : ListFormat) (ftp : FtpSession) :
    (scan param (param.length + 1) 0 state format).isSome = true
      ∧ scan (texts options ++ path) ((texts options ++ path).length + 1) 0 state format
        = some (path,
            { state with
              listHiddenFiles := state.listHiddenFiles || asksForAll options },
            lastFormat format options)
      ∧ (parseListArgs (texts options ++ path)).run ftp
        = .ok { vpath := path, format := lastFormat .long options,
                listHiddenFiles := asksForAll options }
            { ftp with
              state := { ftp.state with
                listHiddenFiles := ftp.state.listHiddenFiles || asksForAll options } } := by
  refine ⟨by rw [scan_whole]; rfl, ?_, ?_⟩
  · rw [scan_whole, parseListLoop_options hpath rfl]
    simp [result, noted]
  · rw [FtpSession.parseListArgs_run, parseListLoop_options hpath rfl]
    simp [FtpSession.asked]

theorem parseListArgs_spec_dashes :
    scan (bytes "-1  -l -a my -1") 16 0 {} .short
      = some (bytes "my -1", { ({} : FtpState) with listHiddenFiles := true }, .long) :=
  (parseListArgs_spec [] [(.one, 2), (.el, 1), (.all, 1)] (bytes "my -1") (by decide) {} .short
    (.fresh .empty (oneFileDisk []) 4096)).2.1

end ParseListArgs

end Wfde
