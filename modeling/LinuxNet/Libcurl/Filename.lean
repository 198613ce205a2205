/-
# LinuxNet.Libcurl.Filename — which file does a download go to?

`curl_multi_handle.cpp` and `curl_multithreaded.cpp` make the name of the file out of the URL with the same
expression. It takes as many bytes as stand between the first dot and the last one, but it takes them from the
12th byte on, where a name begins if the URL begins with `http://www.`.

`filename` is the expression, with its unsigned arithmetic; `outputName` says what comes out of it
(`filename_eq`).
-/
import LinuxNet.Cpp.Search

namespace LinuxNet.Libcurl

open LinuxNet.Lib LinuxNet.Cpp

/-- The dot. -/
def dot : UInt8 := 46

/-- `url.substr(11, url.find_last_of(".") - url.find_first_of(".") - 1) + ".html"`. -/
def filename (url : Bytes) : Except Exn Bytes :=
  (substr url 11 (toSizeT ((findLastOf url dot : Int) - findFirstOf url dot - 1))).map (· ++ ofText ".html")

/-- What stands between the first dot and the last one, in a URL with at least two. -/
def betweenDots (url : Bytes) : Option Bytes :=
  (splitFirst dot url).bind fun p => (splitFirst dot p.2.reverse).map fun q => q.2.reverse

/-- **What a file is called**: the part of the URL from its 12th byte on, as long as what stands between the
first dot and the last one. With fewer than two dots it goes to the end. -/
def outputName (url : Bytes) : Bytes :=
  (match betweenDots url with
    | some between => (url.drop 11).take between.length
    | none => url.drop 11) ++ ofText ".html"

/-! ## The dots of a URL -/

theorem betweenDots_eq_some_iff {url between : Bytes} :
    betweenDots url = some between ↔
      ∃ pre post, url = pre ++ dot :: (between ++ dot :: post) ∧ dot ∉ pre ∧ dot ∉ post := by
  rw [betweenDots, Option.bind_eq_some_iff]
  constructor
  · rintro ⟨⟨pre, rest⟩, hfirst, hlast⟩
    obtain ⟨⟨post, before⟩, hcut, rfl⟩ := Option.map_eq_some_iff.mp hlast
    obtain ⟨rfl, hpre⟩ := splitFirst_eq_some_iff.mp hfirst
    obtain ⟨hreverse, hpost⟩ := splitFirst_eq_some_iff.mp hcut
    refine ⟨pre, post.reverse, ?_, hpre, mt List.mem_reverse.mp hpost⟩
    have hrest : rest = before.reverse ++ dot :: post.reverse := by
      have hreversed := congrArg List.reverse hreverse
      rw [List.reverse_reverse, List.reverse_append, List.reverse_cons, List.append_assoc,
        List.singleton_append] at hreversed
      exact hreversed
    rw [hrest]
  · rintro ⟨pre, post, rfl, hpre, hpost⟩
    refine ⟨_, splitFirst_append hpre _, ?_⟩
    have hreverse : (between ++ dot :: post).reverse = post.reverse ++ dot :: between.reverse := by
      rw [List.reverse_append, List.reverse_cons, List.append_assoc, List.singleton_append]
    have hpost' : dot ∉ post.reverse := mt List.mem_reverse.mp hpost
    rw [hreverse, splitFirst_append hpost', Option.map_some, List.reverse_reverse]

/-- With fewer than two dots, the first one and the last one are found at the same place, if at all. -/
theorem findLastOf_eq_findFirstOf {url : Bytes} (h : betweenDots url = none) :
    findLastOf url dot = findFirstOf url dot := by
  by_cases hdot : dot ∈ url
  · obtain ⟨pre, post, rfl, hpre⟩ := List.eq_append_cons_of_mem hdot
    have hpost : dot ∉ post := by
      intro hin
      obtain ⟨post', between, hreverse, hout⟩ := List.eq_append_cons_of_mem (List.mem_reverse.mpr hin)
      rw [betweenDots, splitFirst_append hpre, Option.bind_some, hreverse, splitFirst_append hout] at h
      cases h
    rw [findLastOf_append pre hpost, findFirstOf_append hpre]
  · rw [findLastOf_of_notMem hdot, findFirstOf_of_notMem hdot]

/-- The bytes between the dots are counted by the difference of the positions. -/
theorem findLastOf_sub_findFirstOf {url between : Bytes} (h : betweenDots url = some between) :
    (findLastOf url dot : Int) - findFirstOf url dot - 1 = between.length := by
  obtain ⟨pre, post, rfl, hpre, hpost⟩ := betweenDots_eq_some_iff.mp h
  have hlast : findLastOf (pre ++ dot :: (between ++ dot :: post)) dot = pre.length + 1 + between.length := by
    have hsplit : pre ++ dot :: (between ++ dot :: post) = (pre ++ dot :: between) ++ dot :: post := by
      rw [List.append_assoc, List.cons_append]
    rw [hsplit, findLastOf_append _ hpost, List.length_append, List.length_cons]
    omega
  rw [hlast, findFirstOf_append hpre]
  omega

/-! ## The name -/

/-- **What the expression computes**: the name, unless the URL has fewer than 11 bytes. -/
theorem filename_eq (url : StdString) :
    filename url.bytes = if url.bytes.length < 11 then .error .outOfRange else .ok (outputName url.bytes) := by
  rw [filename]
  split
  next hshort =>
    rw [substr, if_pos hshort]
    rfl
  next hlong =>
    have hlong := Nat.not_lt.mp hlong
    rw [outputName]
    rcases hbetween : betweenDots url.bytes with _ | between
    · -- the difference is 0, and one less is the largest number there is
      have hminus : ((findLastOf url.bytes dot : Int) - findFirstOf url.bytes dot - 1) = -1 := by
        rw [findLastOf_eq_findFirstOf hbetween]
        omega
      have hall : 2 ^ 63 ≤ toSizeT (-1) := by decide
      rw [hminus, substr_all hlong hall]
      rfl
    · have hlen : between.length < 2 ^ 64 := by
        obtain ⟨pre, post, hurl, -, -⟩ := betweenDots_eq_some_iff.mp hbetween
        have hle := url.length_lt
        rw [hurl, List.length_append, List.length_cons, List.length_append] at hle
        omega
      rw [findLastOf_sub_findFirstOf hbetween, toSizeT_natCast hlen, substr, if_neg (Nat.not_lt.mpr hlong)]
      rfl

/-- **Where the name is the one that was meant**: in a URL whose first dot has ten bytes before it, it is what
stands between the first dot and the last one. -/
theorem outputName_of_prefix {pre between post : Bytes} (hlen : pre.length = 10) (hpre : dot ∉ pre)
    (hpost : dot ∉ post) :
    outputName (pre ++ dot :: (between ++ dot :: post)) = between ++ ofText ".html" := by
  have hbetween : betweenDots (pre ++ dot :: (between ++ dot :: post)) = some between :=
    betweenDots_eq_some_iff.mpr ⟨pre, post, rfl, hpre, hpost⟩
  have hdrop : (pre ++ dot :: (between ++ dot :: post)).drop 11 = between ++ dot :: post := by
    rw [← List.singleton_append, ← List.append_assoc]
    have hprefix : (pre ++ [dot]).length = 11 := by rw [List.length_append, hlen]; rfl
    exact List.drop_left' hprefix
  rw [outputName, hbetween, hdrop]
  show (between ++ dot :: post).take between.length ++ _ = _
  rw [List.take_left]

example : outputName (ofText "http://www.example.com") = ofText "example.html" := by decide

example : outputName (ofText "https://www.example.com") = ofText ".exampl.html" := by decide

end LinuxNet.Libcurl
