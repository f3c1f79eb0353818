import CounterLang.Main
import CounterLang.Session
import CounterLang.Proofs.Refinement
import CounterLang.Proofs.Replay
import CounterLang.Proofs.BracketFaults
import CounterLang.Proofs.Sequencing
import CounterLang.Proofs.Enclosure
import CounterLang.Proofs.Histories
import CounterLang.Proofs.LexicalNesting
import CounterLang.Proofs.Accounting
import CounterLang.Proofs.Composition
import CounterLang.Proofs.Unrolling
import CounterLang.Proofs.Congruence
import CounterLang.Proofs.Lifetimes
import CounterLang.Proofs.Lockstep
import CounterLang.Proofs.Noninterference
import CounterLang.Proofs.Laziness
import CounterLang.Proofs.Canonical
import CounterLang.Proofs.Acceptance
import CounterLang.Proofs.Segmentation
import CounterLang.Proofs.Concatenation
import CounterLang.Proofs.Diagnostics
import CounterLang.Proofs.Renaming
import CounterLang.Proofs.Exchange
import CounterLang.Proofs.Sessions
import CounterLang.Proofs.Batches
import CounterLang.Proofs.Decoding
import CounterLang.Proofs.Numerals
import CounterLang.Proofs.Printing
import CounterLang.Proofs.Listing
import CounterLang.Proofs.Counting
import CounterLang.Proofs.Invariants
import CounterLang.Proofs.Revisits
import CounterLang.Proofs.LongestMatch
import CounterLang.Proofs.Literals
import CounterLang.Proofs.SortedViews
import CounterLang.Proofs.Delimiting
import CounterLang.Proofs.Advancing
