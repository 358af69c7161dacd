import FastAlloc.Model.System
import FastAlloc.RangeMap.System
import FastAlloc.Arena.Failure
import FastAlloc.Arena.Maps
import FastAlloc.Spans.BlockRuns
import FastAlloc.Spans.Conserve
import FastAlloc.Threads.Shim
import FastAlloc.Threads.Bins
import FastAlloc.Threads.Warm
import FastAlloc.Threads.Contents
import FastAlloc.Threads.Stable
import FastAlloc.Threads.Counts
import FastAlloc.Lib.Allocation
import FastAlloc.Threads.OutOfMemory
import FastAlloc.Threads.Wrapping
import FastAlloc.Threads.Linear
import FastAlloc.Threads.Progress
import FastAlloc.Threads.Alike
import FastAlloc.Threads.Whole
import FastAlloc.Threads.Frees
import FastAlloc.Threads.NoTrace
import FastAlloc.Threads.Reuse
import FastAlloc.Threads.Serial
import FastAlloc.Lib.Reduction
import FastAlloc.Lib.Scope
import FastAlloc.Threads.Foreign
import FastAlloc.Threads.Atomic
