import GpuiFast.LayoutRetentionRuns
import GpuiFast.DispatchCopyRuns
import GpuiFast.ScrollLogRuns
import GpuiFast.AppEffectsRuns
import GpuiFast.MeasureLogRuns
import GpuiFast.LineLayoutCacheRuns
import GpuiFast.MeasureText
import GpuiFast.SurfaceStartsRuns
import GpuiFast.LayerFollowRuns
import GpuiFast.SpriteAtlasRuns
import GpuiFast.PrepaintTransactRuns
import GpuiFast.DependencyUnion
import GpuiFast.TouchGestureRuns
import GpuiFast.JournalRuns
import GpuiFast.SplicePaintOrder
import GpuiFast.KeptKeys
import GpuiFast.KeyDispatch
import GpuiFast.PathCacheHits
import GpuiFast.KeymapOffers
import GpuiFast.ShapeDecorationsHolds
import GpuiFast.ShapedLineHolds
import GpuiFast.SumTreeFindEnds
import GpuiFast.SumTreeRuns
import GpuiFast.ThreadedDispatcher
import GpuiFast.PaintLineSpans
import GpuiFast.PredicateReadsBack
import GpuiFast.KeystrokeGrammar
import GpuiFast.SubscribersReleased
import GpuiFast.TrackedEntitiesRuns
import GpuiFast.TabGroups
import GpuiFast.RunReplacementsHold
import GpuiFast.PriorityQueueHold
import GpuiFast.NumberShapingRuns
import GpuiFast.TileEviction
import GpuiFast.LayerCoversHold
import GpuiFast.BackgroundBaked
import GpuiFast.HoverFreezeHolds
import GpuiFast.CarriedHitboxesHold
import GpuiFast.ReleaseVelocity
import GpuiFast.UniformListScroll
import GpuiFast.RelPathRuns
import GpuiFast.LexicalNormalize
import GpuiFast.TestSchedulerOrder
import GpuiFast.TouchPanTravel
import GpuiFast.CompositionInputRuns
import GpuiFast.ComposedSceneLayers
import GpuiFast.ImeMirror
import GpuiFast.Refineable
import GpuiFast.ShellQuotes
import GpuiFast.TruncateLine
import GpuiFast.WrapLine
import GpuiFast.WrapLineRows
