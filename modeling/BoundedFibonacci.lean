import BoundedFibonacci.Computation
import BoundedFibonacci.Proofs.DeliveredSteps
import BoundedFibonacci.Proofs.PolicyResults
import BoundedFibonacci.Sequence
import BoundedFibonacci.Settings.Json
import BoundedFibonacci.Store
import BoundedFibonacci.Proofs.EventLog
import BoundedFibonacci.Proofs.SequencePrefix
import BoundedFibonacci.Proofs.WrittenLines
import BoundedFibonacci.Proofs.SettingsText
import BoundedFibonacci.Proofs.DirectReading
import BoundedFibonacci.Proofs.WrittenSettings
import BoundedFibonacci.Proofs.FollowedPaths
import BoundedFibonacci.Proofs.LayeredLoading
import BoundedFibonacci.Proofs.SavedSettings
import BoundedFibonacci.Proofs.ObservedSessions
import BoundedFibonacci.Proofs.ErrorDomain
import BoundedFibonacci.Proofs.MadeDirectories
import BoundedFibonacci.Proofs.StoreEffects
import BoundedFibonacci.Proofs.CollectedEntries
import BoundedFibonacci.Proofs.AlikeDocuments
import BoundedFibonacci.Proofs.NormalTexts
import BoundedFibonacci.Proofs.UnsignedIndices
import BoundedFibonacci.Proofs.ChangedSettings
import BoundedFibonacci.Proofs.ObservedSums
import BoundedFibonacci.Proofs.JsonShapes
import BoundedFibonacci.Proofs.PathSpellings
import BoundedFibonacci.Proofs.StoreDirectories
import BoundedFibonacci.Proofs.NestingLimit
