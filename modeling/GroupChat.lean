import GroupChat.Api.Hidden
import GroupChat.Api.Neighbours
import GroupChat.Auth.Identity
import GroupChat.Auth.Isolation
import GroupChat.Auth.Lifetime
import GroupChat.Auth.Logins
import GroupChat.Auth.OneTimeUse
import GroupChat.Auth.Purge
import GroupChat.Chat.Acks
import GroupChat.Chat.Eviction
import GroupChat.Chat.LastIntent
import GroupChat.Client.Agreement
import GroupChat.Client.Cache
import GroupChat.Client.Completeness
import GroupChat.Client.MergedList
import GroupChat.Client.ReactionChips
import GroupChat.Client.Refresh
import GroupChat.Client.Service
import GroupChat.Client.Session
import GroupChat.Client.Statements
import GroupChat.Client.Tabs
import GroupChat.Client.Typing
import GroupChat.Common.ErrorFilter
import GroupChat.Groups.Clubs
import GroupChat.Groups.ReadReceipts
import GroupChat.Messages.Content
import GroupChat.Messages.CursorErrors
import GroupChat.Messages.Emoji
import GroupChat.Messages.Toggles
import GroupChat.Messages.Tombstone
import GroupChat.Storage.Upload
import GroupChat.Summary.Coverage
import GroupChat.Summary.Processors
